import Mathlib.Data.List.Basic

/-!
# Texts with placeholders

A text goes with a list of parameters, and the marks outside quotes stand for them in order.  A quote within quotes is
written twice.

    every piece has its own parameters
      ↔ after every piece there are as many marks as parameters, outside quotes   (aligned_prefixes_iff)
-/

namespace Placeholders

variable {α V : Type}

/-- A text with its parameters. -/
@[ext]
structure Marked (α V : Type) where
  text : List α
  params : List V

namespace Marked

instance : Append (Marked α V) := ⟨fun a b => ⟨a.text ++ b.text, a.params ++ b.params⟩⟩

def empty : Marked α V := ⟨[], []⟩

@[simp] theorem text_append (a b : Marked α V) : (a ++ b).text = a.text ++ b.text := rfl

@[simp] theorem params_append (a b : Marked α V) : (a ++ b).params = a.params ++ b.params := rfl

theorem append_assoc (a b c : Marked α V) : a ++ b ++ c = a ++ (b ++ c) :=
  Marked.ext (List.append_assoc ..) (List.append_assoc ..)

theorem empty_append (a : Marked α V) : empty ++ a = a := rfl

theorem append_empty (a : Marked α V) : a ++ empty = a := Marked.ext (List.append_nil _) (List.append_nil _)

def concat : List (Marked α V) → Marked α V
  | [] => empty
  | a :: rest => a ++ concat rest

theorem concat_append (x y : List (Marked α V)) : concat (x ++ y) = concat x ++ concat y := by
  induction x with
  | nil => rfl
  | cons a x ih =>
    show a ++ concat (x ++ y) = _
    rw [ih, ← append_assoc]
    rfl

end Marked

/-! ## Marks outside quotes -/

section
variable [DecidableEq α] (quote mark : α)

/-- How many marks there are outside quotes, and whether the text ends within quotes. -/
def scan : Bool → List α → Nat × Bool
  | quoted, [] => (0, quoted)
  | quoted, a :: rest =>
    if a = quote then scan (!quoted) rest
    else if a = mark ∧ quoted = false then ((scan quoted rest).1 + 1, (scan quoted rest).2)
    else scan quoted rest

theorem scan_append (quoted : Bool) (x y : List α) : scan quote mark quoted (x ++ y) =
    ((scan quote mark quoted x).1 + (scan quote mark (scan quote mark quoted x).2 y).1,
      (scan quote mark (scan quote mark quoted x).2 y).2) := by
  induction x generalizing quoted with
  | nil =>
    rw [List.nil_append]
    show _ = (0 + _, _)
    rw [Nat.zero_add]
    rfl
  | cons a x ih =>
    rw [List.cons_append, scan, scan]
    split
    · exact ih _
    · split
      · rw [ih, Nat.add_right_comm]
      · exact ih _

theorem scan_of_notMem {x : List α} (hquote : quote ∉ x) (hmark : mark ∉ x) (quoted : Bool) :
    scan quote mark quoted x = (0, quoted) := by
  induction x with
  | nil => rfl
  | cons a x ih =>
    rw [List.mem_cons, not_or] at hquote hmark
    rw [scan, if_neg (Ne.symm hquote.1), if_neg fun h => hmark.1 h.1.symm]
    exact ih hquote.2 hmark.2

/-- A text between quotes. -/
def enclose (x : List α) : List α := quote :: (x.flatMap (fun a => if a = quote then [quote, a] else [a]) ++ [quote])

theorem scan_doubled (x : List α) :
    scan quote mark true (x.flatMap fun a => if a = quote then [quote, a] else [a]) = (0, true) := by
  induction x with
  | nil => rfl
  | cons a x ih =>
    have hone : scan quote mark true (if a = quote then [quote, a] else [a]) = (0, true) := by
      by_cases ha : a = quote
      · rw [if_pos ha, scan, if_pos rfl, scan, if_pos ha]
        rfl
      · rw [if_neg ha, scan, if_neg ha, if_neg fun h => Bool.noConfusion h.2]
        rfl
    rw [List.flatMap_cons, scan_append, hone, ih]
    rfl

theorem scan_enclose (x : List α) : scan quote mark false (enclose quote x) = (0, false) := by
  unfold enclose
  rw [scan, if_pos rfl, Bool.not_false, scan_append, scan_doubled, scan, if_pos rfl]
  rfl

/-- The marks of a text are its parameters. -/
def Aligned (m : Marked α V) : Prop := scan quote mark false m.text = (m.params.length, false)

variable {quote mark}

theorem Aligned.append_iff {a b : Marked α V} (ha : Aligned quote mark a) :
    Aligned quote mark (a ++ b) ↔ Aligned quote mark b := by
  unfold Aligned at ha ⊢
  rw [Marked.text_append, Marked.params_append, scan_append, ha, List.length_append, Prod.ext_iff, Prod.ext_iff]
  exact and_congr_left fun _ => Nat.add_left_cancel_iff

theorem aligned_prefixes_iff {pieces : List (Marked α V)} :
    (∀ front back, pieces = front ++ back → Aligned quote mark (Marked.concat front)) ↔
      ∀ p ∈ pieces, Aligned quote mark p := by
  constructor
  · intro h p hp
    obtain ⟨front, back, rfl⟩ := List.append_of_mem hp
    have hfront := h front (p :: back) rfl
    have hnext := h (front ++ [p]) back (by rw [List.append_assoc]; rfl)
    rw [Marked.concat_append, hfront.append_iff] at hnext
    have hone : Marked.concat [p] = p := Marked.append_empty p
    rwa [hone] at hnext
  · intro h front back heq
    have hfront : ∀ p ∈ front, Aligned quote mark p := fun p hp =>
      h p (by rw [heq]; exact List.mem_append_left _ hp)
    clear heq
    induction front with
    | nil => exact rfl
    | cons p front ih =>
      have hp := hfront p List.mem_cons_self
      exact hp.append_iff.mpr (ih fun q hq => hfront q (List.mem_cons_of_mem _ hq))

end

/-! ## Texts that lack something -/

/-- The first text is the second, or shorter where `p` holds. -/
structure Lacks (p : Prop) (a b : Marked α V) : Prop where
  short : p → a.text.length < b.text.length
  same : ¬ p → a = b

namespace Lacks

variable {p q : Prop} {a b c d : Marked α V}

theorem of_eq (h : a = b) : Lacks False a b := ⟨False.elim, fun _ => h⟩

theorem of_short (h : a.text.length < b.text.length) : Lacks True a b := ⟨fun _ => h, fun hn => absurd trivial hn⟩

theorem congr (h : Lacks p a b) (hpq : p ↔ q) : Lacks q a b :=
  ⟨fun hq => h.short (hpq.mpr hq), fun hq => h.same fun hp => hq (hpq.mp hp)⟩

theorem eq_iff (h : Lacks p a b) : a = b ↔ ¬ p :=
  ⟨fun heq hp => absurd (congrArg (·.text.length) heq) (Nat.ne_of_lt (h.short hp)), h.same⟩

theorem length_le (h : Lacks p a b) : a.text.length ≤ b.text.length := by
  by_cases hp : p
  · exact Nat.le_of_lt (h.short hp)
  · exact Nat.le_of_eq (by rw [h.same hp])

theorem append (h : Lacks p a b) (h' : Lacks q c d) : Lacks (p ∨ q) (a ++ c) (b ++ d) := by
  constructor
  · rintro hpq
    have hle := h.length_le
    have hle' := h'.length_le
    rw [Marked.text_append, Marked.text_append, List.length_append, List.length_append]
    rcases hpq with hp | hq
    · have := h.short hp
      omega
    · have := h'.short hq
      omega
  · intro hpq
    rw [h.same fun hp => hpq (.inl hp), h'.same fun hq => hpq (.inr hq)]

end Lacks

end Placeholders
