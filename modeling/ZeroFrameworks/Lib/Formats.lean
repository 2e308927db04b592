import Mathlib.Data.List.Forall2
import ZeroFrameworks.Lib.Codec

/-!
# Formats

A reader may forget part of what it reads, as one that puts items into an unordered container does.  `Format r ok enc
dec` says what is written: pieces of syntax `b` that are `ok`, each with an encoding `enc b` that no other piece has,
whatever follows.  The reader accepts these encodings and nothing else, and gives `dec b`.

    Format r ok enc dec → r input = ok (x, rest) ↔ ∃ b, ok b ∧ input = enc b ++ rest ∧ x = dec b   (Format.reads)
    Format r .. → Format (f x) .. → Format (r >>= f) ..   (Format.bind)
-/

namespace Codec

variable {B E α α' β β' : Type}

structure Format (r : Reader B E α) (ok : β → Prop) (enc : β → List B) (dec : β → α) : Prop where
  sound : Sound r
  parses : ∀ {e x}, Parses r e x ↔ ∃ b, ok b ∧ e = enc b ∧ x = dec b
  unique : ∀ {b c rest rest'}, ok b → ok c → enc b ++ rest = enc c ++ rest' → b = c ∧ rest = rest'

namespace Format

variable {r : Reader B E α} {ok : β → Prop} {enc : β → List B} {dec : β → α}

theorem exact {r : Reader B E β} (h : Sound r) (hp : ∀ e x, Parses r e x ↔ ok x ∧ e = enc x) :
    Format r ok enc id where
  sound := h
  parses {e x} := by
    rw [hp]
    constructor
    · rintro ⟨hx, rfl⟩
      exact ⟨x, hx, rfl, rfl⟩
    · rintro ⟨b, hb, rfl, rfl⟩
      exact ⟨hb, rfl⟩
  unique {b c rest rest'} hb hc heq := by
    have hr := (hp _ b).mpr ⟨hb, rfl⟩ rest
    rw [heq, (hp _ c).mpr ⟨hc, rfl⟩ rest'] at hr
    obtain ⟨rfl, rfl⟩ := Prod.mk.inj (Except.ok.inj hr)
    exact ⟨rfl, rfl⟩

/-- What comes second may depend on what came first. -/
theorem bind {f : α → Reader B E α'} {ok' : α → β' → Prop} {enc' : β' → List B} {dec' : α → β' → α'}
    (h : Format r ok enc dec) (h' : ∀ x, Format (f x) (ok' x) enc' (dec' x)) :
    Format (r >>= f) (fun b : β × β' => ok b.1 ∧ ok' (dec b.1) b.2) (fun b => enc b.1 ++ enc' b.2)
      (fun b => dec' (dec b.1) b.2) where
  sound := h.sound.bind fun x => (h' x).sound
  parses {e y} := by
    rw [h.sound.parses_bind fun x => (h' x).sound]
    constructor
    · rintro ⟨x, e1, e2, h1, h2, rfl⟩
      obtain ⟨b, hb, rfl, rfl⟩ := h.parses.mp h1
      obtain ⟨c, hc, rfl, rfl⟩ := (h' _).parses.mp h2
      exact ⟨(b, c), ⟨hb, hc⟩, rfl, rfl⟩
    · rintro ⟨⟨b, c⟩, ⟨hb, hc⟩, rfl, rfl⟩
      exact ⟨_, _, _, h.parses.mpr ⟨b, hb, rfl, rfl⟩, (h' _).parses.mpr ⟨c, hc, rfl, rfl⟩, rfl⟩
  unique {b c rest rest'} hb hc heq := by
    obtain ⟨b1, b2⟩ := b
    obtain ⟨c1, c2⟩ := c
    simp only [List.append_assoc] at heq
    have hfst : b1 = c1 ∧ enc' b2 ++ rest = enc' c2 ++ rest' := h.unique hb.1 hc.1 heq
    obtain ⟨rfl, hrest⟩ := hfst
    have hsnd : b2 = c2 ∧ rest = rest' := (h' (dec b1)).unique hb.2 hc.2 hrest
    exact ⟨Prod.ext rfl hsnd.1, hsnd.2⟩

/-- A reader that only rearranges what it has read. -/
theorem map (h : Format r ok enc dec) (f : α → α') :
    Format (r >>= fun x => pure (f x)) ok enc (fun b => f (dec b)) where
  sound := h.sound.bind fun _ => .pure _
  parses {e y} := by
    rw [h.sound.parses_bind_pure]
    constructor
    · rintro ⟨x, hx, rfl⟩
      obtain ⟨b, hb, rfl, rfl⟩ := h.parses.mp hx
      exact ⟨b, hb, rfl, rfl⟩
    · rintro ⟨b, hb, rfl, rfl⟩
      exact ⟨_, h.parses.mpr ⟨b, hb, rfl, rfl⟩, rfl⟩
  unique := h.unique

theorem congr {r' : Reader B E α} (h : Format r ok enc dec) (hs : Sound r') (hp : ∀ {e x}, Parses r' e x ↔ Parses r e x) :
    Format r' ok enc dec := ⟨hs, hp.trans h.parses, h.unique⟩

theorem via {ok' : β' → Prop} {enc' : β' → List B} {dec' : β' → α} (h : Format r ok enc dec) (mk : β → β')
    (hok : ∀ c, ok' c ↔ ∃ b, ok b ∧ mk b = c) (henc : ∀ b, ok b → enc' (mk b) = enc b)
    (hdec : ∀ b, ok b → dec' (mk b) = dec b) : Format r ok' enc' dec' where
  sound := h.sound
  parses {e x} := by
    rw [h.parses]
    constructor
    · rintro ⟨b, hb, rfl, rfl⟩
      exact ⟨mk b, (hok _).mpr ⟨b, hb, rfl⟩, (henc b hb).symm, (hdec b hb).symm⟩
    · rintro ⟨c, hc, rfl, rfl⟩
      obtain ⟨b, hb, rfl⟩ := (hok c).mp hc
      exact ⟨b, hb, henc b hb, hdec b hb⟩
  unique {b c rest rest'} hb hc heq := by
    obtain ⟨b, hb', rfl⟩ := (hok b).mp hb
    obtain ⟨c, hc', rfl⟩ := (hok c).mp hc
    rw [henc b hb', henc c hc'] at heq
    obtain ⟨rfl, rfl⟩ := h.unique hb' hc' heq
    exact ⟨rfl, rfl⟩

theorem forall₂ (h : Format r ok enc dec) {es : List (List B)} {xs : List α} :
    List.Forall₂ (Parses r) es xs ↔ ∃ bs : List β, (∀ b ∈ bs, ok b) ∧ es = bs.map enc ∧ xs = bs.map dec := by
  constructor
  · intro hf
    induction hf with
    | nil => exact ⟨[], ⟨fun b hb => (by cases hb), rfl, rfl⟩⟩
    | cons hx _ ih =>
      obtain ⟨b, hb, rfl, rfl⟩ := h.parses.mp hx
      obtain ⟨bs, hbs, rfl, rfl⟩ := ih
      exact ⟨b :: bs, List.forall_mem_cons.mpr ⟨hb, hbs⟩, rfl, rfl⟩
  · rintro ⟨bs, hbs, rfl, rfl⟩
    rw [List.forall₂_map_left_iff, List.forall₂_map_right_iff, List.forall₂_same]
    exact fun b hb => h.parses.mpr ⟨b, hbs b hb, rfl, rfl⟩

theorem unique_flatMap (h : Format r ok enc dec) {bs cs : List β} {rest rest' : List B} (hbs : ∀ b ∈ bs, ok b)
    (hcs : ∀ c ∈ cs, ok c) (hlen : bs.length = cs.length)
    (heq : bs.flatMap enc ++ rest = cs.flatMap enc ++ rest') : bs = cs ∧ rest = rest' := by
  induction bs generalizing cs with
  | nil =>
    obtain rfl : cs = [] := List.eq_nil_of_length_eq_zero hlen.symm
    exact ⟨rfl, heq⟩
  | cons b bs ih =>
    cases cs with
    | nil => cases hlen
    | cons c cs =>
      obtain ⟨hb, hbs'⟩ := List.forall_mem_cons.mp hbs
      obtain ⟨hc, hcs'⟩ := List.forall_mem_cons.mp hcs
      rw [List.flatMap_cons, List.flatMap_cons, List.append_assoc, List.append_assoc] at heq
      obtain ⟨rfl, hrest⟩ := h.unique hb hc heq
      have hlen' : bs.length = cs.length := by simpa using hlen
      obtain ⟨rfl, rfl⟩ := ih hbs' hcs' hlen' hrest
      exact ⟨rfl, rfl⟩

theorem many (h : Format r ok enc dec) (n : Nat) :
    Format (Codec.many r n) (fun bs : List β => bs.length = n ∧ ∀ b ∈ bs, ok b) (·.flatMap enc) (·.map dec) where
  sound := h.sound.many n
  parses {e xs} := by
    rw [h.sound.parses_many]
    constructor
    · rintro ⟨es, hes, hn, rfl⟩
      obtain ⟨bs, hbs, rfl, rfl⟩ := h.forall₂.mp hes
      exact ⟨bs, ⟨by rwa [List.length_map] at hn, hbs⟩, List.flatMap_def.symm, rfl⟩
    · rintro ⟨bs, ⟨hn, hbs⟩, rfl, rfl⟩
      exact ⟨bs.map enc, h.forall₂.mpr ⟨bs, hbs, rfl, rfl⟩, by rwa [List.length_map], List.flatMap_def⟩
  unique hb hc heq := h.unique_flatMap hb.2 hc.2 (hb.1.trans hc.1.symm) heq

theorem reads (h : Format r ok enc dec) {input rest : List B} {x : α} :
    r input = .ok (x, rest) ↔ ∃ b, ok b ∧ input = enc b ++ rest ∧ x = dec b := by
  constructor
  · intro hr
    obtain ⟨e, rfl, hp⟩ := h.sound.takes hr
    obtain ⟨b, hb, rfl, rfl⟩ := h.parses.mp hp
    exact ⟨b, hb, rfl, rfl⟩
  · rintro ⟨b, hb, rfl, rfl⟩
    exact h.parses.mpr ⟨b, hb, rfl, rfl⟩ rest

end Format

end Codec
