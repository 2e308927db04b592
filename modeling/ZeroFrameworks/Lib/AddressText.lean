import Mathlib.Tactic.Common
import Mathlib.Data.List.Forall2
import Mathlib.Data.List.Induction

/-!
# The text of an IPv6 address (RFC 4291, 2.2)

Eight groups of sixteen bits, each in one to four hex digits, with colons between them; `::` once, for one or more
groups of zeros.  The form with an IPv4 address at its end has dots in it and is left out.

    Denotes text gs → Denotes text gs' → gs = gs'   (Denotes.unique)
    Denotes text gs → text = a ++ "::" ++ b → text = a' ++ "::" ++ b' → a = a' ∧ b = b'   (Denotes.once)
-/

namespace AddressText

/-! ## Specification -/

def hexDigit (c : Char) : Option Nat :=
  if '0' ≤ c ∧ c ≤ '9' then some (c.toNat - '0'.toNat)
  else if 'a' ≤ c ∧ c ≤ 'f' then some (c.toNat - 'a'.toNat + 10)
  else if 'A' ≤ c ∧ c ≤ 'F' then some (c.toNat - 'A'.toNat + 10)
  else none

def hexValue (s : List Char) : Option Nat :=
  s.foldlM (fun n c => (hexDigit c).map (16 * n + ·)) 0

/-- A group in its digits. -/
structure Hextet (s : List Char) (g : Nat) : Prop where
  nonempty : s ≠ []
  short : s.length ≤ 4
  value : hexValue s = some g

abbrev colons (xs : List (List Char)) : List Char := [':'].intercalate xs

inductive Denotes : List Char → List Nat → Prop
  | full {xs : List (List Char)} {gs : List Nat} :
      List.Forall₂ Hextet xs gs → gs.length = 8 → Denotes (colons xs) gs
  | zeros {xs ys : List (List Char)} {before after : List Nat} {n : Nat} :
      List.Forall₂ Hextet xs before → List.Forall₂ Hextet ys after → 1 ≤ n → before.length + n + after.length = 8 →
      Denotes (colons xs ++ ':' :: ':' :: colons ys) (before ++ List.replicate n 0 ++ after)

/-! ## Lemmas -/

theorem Hextet.unique {s : List Char} {g g' : Nat} (h : Hextet s g) (h' : Hextet s g') : g = g' :=
  Option.some.inj (h.value.symm.trans h'.value)

theorem hexValue_concat (s : List Char) (c : Char) :
    hexValue (s ++ [c]) = (hexValue s).bind fun n => (hexDigit c).map (16 * n + ·) := by
  simp [hexValue, List.foldlM_append]

theorem Hextet.colonless {s : List Char} {g : Nat} (h : Hextet s g) : ':' ∉ s := by
  obtain ⟨-, -, h⟩ := h
  induction s using List.reverseRecOn generalizing g with
  | nil => simp
  | append_singleton s c ih =>
      rw [hexValue_concat] at h
      obtain ⟨n, hn, hc⟩ := Option.bind_eq_some_iff.mp h
      have hne : ':' ≠ c := by
        rintro rfl
        rw [show hexDigit ':' = none from rfl] at hc
        cases hc
      simp [ih hn, hne]

theorem hexValue_toDigits (n : Nat) : hexValue (Nat.toDigits 16 n) = some n := by
  have hdigit : ∀ d < 16, hexDigit (Nat.digitChar d) = some d := by decide
  induction n using Nat.strongRecOn with
  | ind n ih =>
      rcases Nat.lt_or_ge n 16 with h | h
      · rw [Nat.toDigits_of_lt_base h]
        simp [hexValue, hdigit n h]
      · rw [Nat.toDigits_of_base_le (by omega) h, hexValue_concat, ih (n / 16) (by omega),
          hdigit (n % 16) (by omega), Option.bind_some, Option.map_some]
        congr 1
        omega

theorem hextet_toDigits {n : Nat} (h : n < 65536) : Hextet (Nat.toDigits 16 n) n where
  nonempty := Nat.toDigits_ne_nil
  short := (Nat.length_toDigits_le_iff (by omega) (by omega)).mpr h
  value := hexValue_toDigits n

theorem colons_concat {xs : List (List Char)} (h : xs ≠ []) (x : List Char) :
    colons (xs ++ [x]) = colons xs ++ ':' :: x := by
  induction xs with
  | nil => exact absurd rfl h
  | cons y xs ih =>
      rcases eq_or_ne xs [] with rfl | hne
      · simp
      · have ih := ih hne
        rw [colons, colons] at ih
        rw [List.cons_append, colons, colons, List.intercalate_cons_of_ne_nil (by simp), ih,
          List.intercalate_cons_of_ne_nil hne, List.append_assoc, List.append_assoc, List.append_assoc]

/-! ## What a text falls into at its colons -/

section

variable {xs ys : List (List Char)} {gs hs : List Nat}

theorem mem_hextets (h : List.Forall₂ Hextet xs gs) {x : List Char} (hx : x ∈ xs) : x ≠ [] ∧ ':' ∉ x := by
  induction h with
  | nil => cases hx
  | cons hxg _ ih =>
      rcases List.mem_cons.mp hx with rfl | hx
      · exact ⟨hxg.nonempty, hxg.colonless⟩
      · exact ih hx

theorem splitOn_side (h : List.Forall₂ Hextet xs gs) :
    (colons xs).splitOn ':' = xs ∧ xs ≠ [] ∨ (colons xs).splitOn ':' = [[]] ∧ xs = [] := by
  rcases eq_or_ne xs [] with rfl | hne
  · exact .inr ⟨rfl, rfl⟩
  · exact .inl ⟨List.splitOn_intercalate ':' (fun x hx => (mem_hextets h hx).2) hne, hne⟩

theorem unique_side (h : List.Forall₂ Hextet xs gs) (h' : List.Forall₂ Hextet ys hs) (heq : colons xs = colons ys) :
    gs = hs := by
  have hxs : xs = ys := by
    rcases splitOn_side h with ⟨hx, hxne⟩ | ⟨hx, rfl⟩ <;> rcases splitOn_side h' with ⟨hy, hyne⟩ | ⟨hy, rfl⟩
    · rw [← hx, ← hy, heq]
    · rw [← heq, hx] at hy
      exact absurd rfl (mem_hextets h (hy ▸ List.mem_singleton_self [])).1
    · rw [heq, hy] at hx
      exact absurd rfl (mem_hextets h' (hx ▸ List.mem_singleton_self [])).1
    · rfl
  subst hxs
  exact List.right_unique_forall₂' (R := Hextet) (fun _ _ _ => Hextet.unique) h h'

theorem splitOn_double (a b : List Char) :
    (a ++ ':' :: ':' :: b).splitOn ':' = a.splitOn ':' ++ [] :: b.splitOn ':' := by
  rw [List.splitOn_append_cons_self, ← List.nil_append (':' :: b), List.splitOn_append_cons_self, List.splitOn_nil,
    List.singleton_append]

theorem splitOn_injective {a b : List Char} (h : a.splitOn ':' = b.splitOn ':') : a = b := by
  have ha := List.intercalate_splitOn ':' |>.symm.trans (congrArg [':'].intercalate h)
  rwa [List.intercalate_splitOn] at ha

theorem splitOn_side_empty (h : List.Forall₂ Hextet xs gs) (hmem : [] ∈ (colons xs).splitOn ':') :
    xs = [] ∧ (colons xs).splitOn ':' = [[]] := by
  rcases splitOn_side h with ⟨hx, -⟩ | ⟨hx, hxs⟩
  · exact absurd rfl (mem_hextets h (hx ▸ hmem)).1
  · exact ⟨hxs, hx⟩

theorem not_double (h : List.Forall₂ Hextet xs gs) (a b : List Char) : colons xs ≠ a ++ ':' :: ':' :: b := by
  intro heq
  have hsplit := splitOn_double a b
  rw [← heq] at hsplit
  obtain ⟨rfl, -⟩ := splitOn_side_empty h (by rw [hsplit]; simp)
  simp at heq

/-- An empty piece with a piece on both sides of it is the one at the `::`. -/
theorem apart {A B C D : List (List Char)} (hA : [] ∈ A → A = [[]]) (hB : [] ∈ B → B = [[]]) (hC : C ≠ [])
    (hD : D ≠ []) (h : A ++ [] :: B = C ++ [] :: D) : A = C ∧ B = D := by
  have hCpos := List.length_pos_iff.mpr hC
  have hDpos := List.length_pos_iff.mpr hD
  rcases List.append_eq_append_iff.mp h with ⟨m, rfl, hm⟩ | ⟨m, rfl, hm⟩
  · cases m with
    | nil => exact ⟨(List.append_nil A).symm, (List.cons.inj hm).2⟩
    | cons p m =>
        -- the other empty piece would be inside of `B`
        obtain ⟨-, hm⟩ := List.cons.inj hm
        have hlen := congrArg List.length (hm.symm.trans (hB (by rw [hm]; simp)))
        simp only [List.append_eq, List.length_append, List.length_cons, List.length_nil] at hlen
        omega
  · cases m with
    | nil => exact ⟨List.append_nil C, (List.cons.inj hm).2.symm⟩
    | cons p m =>
        obtain ⟨rfl, -⟩ := List.cons.inj hm
        have hlen := congrArg List.length (hA (by simp))
        simp only [List.length_append, List.length_cons, List.length_nil] at hlen
        omega

theorem split_once (h : List.Forall₂ Hextet xs gs) (h' : List.Forall₂ Hextet ys hs) {a b : List Char}
    (heq : colons xs ++ ':' :: ':' :: colons ys = a ++ ':' :: ':' :: b) : a = colons xs ∧ b = colons ys := by
  have hsplit := congrArg (List.splitOn ':') heq
  rw [splitOn_double, splitOn_double] at hsplit
  obtain ⟨ha, hb⟩ := apart (fun hm => (splitOn_side_empty h hm).2) (fun hm => (splitOn_side_empty h' hm).2)
    (List.splitOn_ne_nil _ _) (List.splitOn_ne_nil _ _) hsplit
  exact ⟨(splitOn_injective ha).symm, (splitOn_injective hb).symm⟩

end

/-! ## Top theorems -/

theorem Denotes.once {text a b a' b' : List Char} {gs : List Nat} (h : Denotes text gs)
    (ha : text = a ++ ':' :: ':' :: b) (ha' : text = a' ++ ':' :: ':' :: b') : a = a' ∧ b = b' := by
  cases h with
  | full h _ => exact absurd ha (not_double h a b)
  | zeros h h' _ _ =>
      obtain ⟨rfl, rfl⟩ := split_once h h' ha
      obtain ⟨rfl, rfl⟩ := split_once h h' ha'
      exact ⟨rfl, rfl⟩

theorem Denotes.unique {text : List Char} {gs gs' : List Nat} (h : Denotes text gs) (h' : Denotes text gs') :
    gs = gs' := by
  cases h with
  | full h hlen =>
      rename_i xs
      generalize ht : colons xs = text at h'
      cases h' with
      | full h' _ => exact unique_side h h' ht
      | zeros _ _ _ _ => exact absurd ht (not_double h _ _)
  | zeros hx hy hn hlen =>
      rename_i xs ys before after n
      generalize ht : colons xs ++ ':' :: ':' :: colons ys = text at h'
      cases h' with
      | full h' _ => exact absurd ht.symm (not_double h' _ _)
      | zeros hx' hy' hn' hlen' =>
          obtain ⟨hxs, hys⟩ := split_once hx hy ht
          obtain rfl := unique_side hx hx' hxs.symm
          obtain rfl := unique_side hy hy' hys.symm
          congr 3
          omega

end AddressText
