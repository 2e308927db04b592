import Mathlib.Data.List.Basic

/-!
# Paging through a listing

A caller asks for a listing page by page: a page starts at the position the last one named, and 0 is the end.  A position
counts what stands in front of it in the listing of the moment, so an element is passed over when the listing gets shorter
in front of it.

    x stands in every listing and is never overtaken by the next position → x is in a page   (Iteration.shown)
    the listing does not change → the pages one after the other are the listing   (Iteration.flatten)
    the pages of a listing are whole pairs ↔ the listing is, and the size is even or it is one page   (Iteration.paired_iff)
-/

namespace Paging

variable {ι α : Type*}

/-! ## Algorithm -/

/-- One page of `size` elements, and the position of the next page. -/
def page (size : Nat) (all : List α) (cursor : Nat) : Nat × List α :=
  if all.length ≤ cursor then (0, [])
  else (if all.length ≤ cursor + size then 0 else cursor + size, (all.drop cursor).take size)

/-- The pages a caller gets at the moments of its calls, from a position until it gets 0. -/
inductive Iteration (call : ι → Nat → Option (Nat × List α)) : Nat → List ι → List (List α) → Prop
  | last {c : Nat} {i : ι} {items : List α} : call i c = some (0, items) → Iteration call c [i] [items]
  | next {c c' : Nat} {i : ι} {is : List ι} {items : List α} {pages : List (List α)} :
      call i c = some (c', items) → c' ≠ 0 → Iteration call c' is pages → Iteration call c (i :: is) (items :: pages)

/-- `Q` of each moment and the next, and the position the call at the next one starts at. -/
def Between (call : ι → Nat → Option (Nat × List α)) (Q : Nat → ι → ι → Prop) : Nat → List ι → Prop
  | c, i :: j :: is => ∀ r, call i c = some r → Q r.1 i j ∧ Between call Q r.1 (j :: is)
  | _, _ => True

/-- Pairs as the list of their parts. -/
def unpair (l : List (α × α)) : List α := l.flatMap fun p => [p.1, p.2]

/-- Each page is made of whole pairs, and all of them together are `pairs`. -/
def Paired (pairs : List (α × α)) (pages : List (List α)) : Prop :=
  ∃ chunks : List (List (α × α)), pages = chunks.map unpair ∧ chunks.flatten.Perm pairs

/-! ## Lemmas -/

variable {call : ι → Nat → Option (Nat × List α)} {Q : Nat → ι → ι → Prop} {size c c' : Nat} {all : List α} {is : List ι}
  {items : List α} {pages : List (List α)} {pairs l : List (α × α)}

theorem Between.mono {Q' : Nat → ι → ι → Prop} (h : Between call Q c is) (hQ : ∀ c, ∀ i ∈ is, ∀ j ∈ is, Q c i j → Q' c i j) :
    Between call Q' c is := by
  induction is generalizing c with
  | nil => trivial
  | cons i is ih =>
    cases is with
    | nil => trivial
    | cons j is =>
      intro r hr
      obtain ⟨hq, hrest⟩ := h r hr
      refine ⟨hQ _ i List.mem_cons_self j (List.mem_cons_of_mem _ List.mem_cons_self) hq, ih hrest ?_⟩
      exact fun c i hi j hj => hQ c i (List.mem_cons_of_mem _ hi) j (List.mem_cons_of_mem _ hj)

theorem page_next (h : page size all c = (c', items)) (hne : c' ≠ 0) :
    c + size < all.length ∧ c' = c + size ∧ items = (all.drop c).take size := by
  unfold page at h
  split at h
  · exact absurd (congrArg Prod.fst h).symm hne
  · split at h
    · exact absurd (congrArg Prod.fst h).symm hne
    next hs =>
      obtain ⟨rfl, rfl⟩ := Prod.mk.inj h
      exact ⟨Nat.lt_of_not_le hs, rfl, rfl⟩

theorem page_last (hsize : 0 < size) (h : page size all c = (0, items)) :
    all.length ≤ c + size ∧ items = all.drop c := by
  unfold page at h
  split at h
  next hc =>
    obtain ⟨-, rfl⟩ := Prod.mk.inj h
    exact ⟨Nat.le_trans hc (Nat.le_add_right _ _), (List.drop_eq_nil_of_le hc).symm⟩
  · obtain ⟨hend, rfl⟩ := Prod.mk.inj h
    split at hend
    next hs =>
      refine ⟨hs, List.take_of_length_le ?_⟩
      rw [List.length_drop]
      omega
    · omega

theorem mem_page {x : α} {p : Nat} (h : page size all c = (c', items)) (hx : all[p]? = some x) (hc : c ≤ p)
    (hp : p < c + size) : x ∈ items := by
  have hlen : p < all.length := (List.getElem?_eq_some_iff.mp hx).1
  unfold page at h
  rw [if_neg (by omega)] at h
  obtain ⟨-, rfl⟩ := Prod.mk.inj h
  refine List.mem_iff_getElem?.mpr ⟨p - c, ?_⟩
  rw [List.getElem?_take_of_lt (by omega), List.getElem?_drop, Nat.add_sub_cancel' hc]
  exact hx

/-- What is in front of no position stays in front of none, until a page covers it. -/
theorem Iteration.shown {listing : ι → List α} {place : ι → Nat} {x : α} (hit : Iteration call c is pages)
    (hcall : ∀ i ∈ is, ∀ c, call i c = some (page size (listing i) c))
    (hx : ∀ i ∈ is, (listing i)[place i]? = some x) (hsize : 0 < size)
    (hkeep : Between call (fun c i j => c ≤ place i → c ≤ place j) c is)
    (hstart : ∀ i ∈ is.head?, c ≤ place i) : ∃ p ∈ pages, x ∈ p := by
  induction hit with
  | @last c i items h =>
    have hi := hx i List.mem_cons_self
    have hc : c ≤ place i := hstart i rfl
    rw [hcall i List.mem_cons_self, Option.some.injEq] at h
    obtain ⟨hlen, -⟩ := page_last hsize h
    have hlt : place i < (listing i).length := (List.getElem?_eq_some_iff.mp hi).1
    exact ⟨items, List.mem_cons_self, mem_page h hi hc (by omega)⟩
  | @next c c' i is items pages h hne hit ih =>
    have hi := hx i List.mem_cons_self
    have hc : c ≤ place i := hstart i rfl
    have hpage := h
    rw [hcall i List.mem_cons_self, Option.some.injEq] at hpage
    obtain ⟨-, hc', -⟩ := page_next hpage hne
    by_cases hcovered : place i < c + size
    · exact ⟨items, List.mem_cons_self, mem_page hpage hi hc hcovered⟩
    · -- the element is behind the next position, and still is when the next call comes
      have hahead : ∀ j ∈ is.head?, c' ≤ place j := by
        intro j hj
        obtain ⟨rest, rfl⟩ := List.head?_eq_some_iff.mp hj
        exact (hkeep _ h).1 (by show c' ≤ place i; omega)
      have hrest : Between call (fun c i j => c ≤ place i → c ≤ place j) c' is := by
        cases is with
        | nil => trivial
        | cons j is => exact (hkeep _ h).2
      obtain ⟨p, hp, hxp⟩ := ih (fun j hj => hcall j (List.mem_cons_of_mem _ hj))
        (fun j hj => hx j (List.mem_cons_of_mem _ hj)) hrest hahead
      exact ⟨p, List.mem_cons_of_mem _ hp, hxp⟩

/-! ### A listing that does not change -/

theorem Iteration.flatten (hit : Iteration call c is pages) (hcall : ∀ i ∈ is, ∀ c, call i c = some (page size all c))
    (hsize : 0 < size) : pages.flatten = all.drop c := by
  induction hit with
  | @last c i items h =>
    rw [hcall i List.mem_cons_self, Option.some.injEq] at h
    obtain ⟨-, hitems⟩ := page_last hsize h
    rw [List.flatten_cons, List.flatten_nil, List.append_nil]
    exact hitems
  | @next c c' i is items pages h hne hit ih =>
    rw [hcall i List.mem_cons_self, Option.some.injEq] at h
    obtain ⟨-, rfl, rfl⟩ := page_next h hne
    rw [List.flatten_cons, ih fun j hj => hcall j (List.mem_cons_of_mem _ hj), ← List.drop_drop, List.take_append_drop]

theorem exists_iteration (moments : Nat → ι) (hcall : ∀ n c, call (moments n) c = some (page size all c)) (hsize : 0 < size) :
    ∃ n pages, Iteration call c ((List.range n).map moments) pages := by
  induction hleft : all.length - c using Nat.strongRecOn generalizing c moments with
  | ind left ih =>
    obtain ⟨⟨c', items⟩, hpage⟩ : ∃ r, page size all c = r := ⟨_, rfl⟩
    have hfirst : call (moments 0) c = some (c', items) := by rw [hcall 0, hpage]
    by_cases hend : c' = 0
    · subst hend
      exact ⟨1, [items], .last hfirst⟩
    · obtain ⟨hlt, hc', -⟩ := page_next hpage hend
      obtain ⟨n, pages, hit⟩ := ih (all.length - c') (by omega) (fun n => moments (n + 1)) (fun n => hcall (n + 1)) rfl
      refine ⟨n + 1, items :: pages, ?_⟩
      rw [List.range_succ_eq_map, List.map_cons, List.map_map]
      exact .next hfirst hend hit

/-! ### Pairs -/

@[simp] theorem unpair_nil : unpair ([] : List (α × α)) = [] := rfl

@[simp] theorem unpair_cons (p : α × α) (l : List (α × α)) : unpair (p :: l) = p.1 :: p.2 :: unpair l := rfl

theorem unpair_append (l l' : List (α × α)) : unpair (l ++ l') = unpair l ++ unpair l' := List.flatMap_append

theorem length_unpair (l : List (α × α)) : (unpair l).length = 2 * l.length := by
  induction l with
  | nil => rfl
  | cons p l ih =>
    rw [unpair_cons, List.length_cons, List.length_cons, ih, List.length_cons]
    omega

theorem unpair_flatten (chunks : List (List (α × α))) : (chunks.map unpair).flatten = unpair chunks.flatten := by
  induction chunks with
  | nil => rfl
  | cons chunk chunks ih => rw [List.map_cons, List.flatten_cons, List.flatten_cons, unpair_append, ih]

theorem unpair_take (n : Nat) (l : List (α × α)) : (unpair l).take (2 * n) = unpair (l.take n) := by
  induction n generalizing l with
  | zero => rfl
  | succ n ih =>
    cases l with
    | nil => rfl
    | cons p l =>
      rw [Nat.mul_succ, unpair_cons, List.take_succ_cons, List.take_succ_cons, List.take_succ_cons, unpair_cons, ih]

theorem unpair_drop (n : Nat) (l : List (α × α)) : (unpair l).drop (2 * n) = unpair (l.drop n) := by
  induction n generalizing l with
  | zero => rfl
  | succ n ih =>
    cases l with
    | nil => rfl
    | cons p l => rw [Nat.mul_succ, unpair_cons, List.drop_succ_cons, List.drop_succ_cons, List.drop_succ_cons, ih]

theorem Iteration.chunks (hit : Iteration call c is pages) (hcall : ∀ i ∈ is, ∀ c, call i c = some (page size all c))
    (hsize : 0 < size) (hl : all.drop c = unpair l) (hfit : all.length ≤ c + size ∨ 2 ∣ size) :
    ∃ chunks : List (List (α × α)), pages = chunks.map unpair ∧ chunks.flatten = l := by
  induction hit generalizing l with
  | @last c i items h =>
    rw [hcall i List.mem_cons_self, Option.some.injEq] at h
    obtain ⟨-, hitems⟩ := page_last hsize h
    exact ⟨[l], by rw [List.map_singleton, ← hl, ← hitems], List.flatten_singleton⟩
  | @next c c' i is items pages h hne hit ih =>
    rw [hcall i List.mem_cons_self, Option.some.injEq] at h
    obtain ⟨hlt, rfl, rfl⟩ := page_next h hne
    obtain ⟨n, rfl⟩ := hfit.resolve_left (Nat.not_le.mpr hlt)
    have hdrop : all.drop (c + 2 * n) = unpair (l.drop n) := by rw [← List.drop_drop, hl, unpair_drop]
    obtain ⟨chunks, rfl, hflat⟩ := ih (fun j hj => hcall j (List.mem_cons_of_mem _ hj)) hdrop (.inr (Nat.dvd_mul_right 2 n))
    refine ⟨l.take n :: chunks, ?_, ?_⟩
    · rw [List.map_cons, hl, unpair_take]
    · rw [List.flatten_cons, hflat, List.take_append_drop]

theorem Iteration.paired_iff (hit : Iteration call 0 is pages) (hcall : ∀ i ∈ is, ∀ c, call i c = some (page size all c))
    (hsize : 0 < size) :
    Paired pairs pages ↔ (∃ l, all = unpair l ∧ l.Perm pairs) ∧ (all.length ≤ size ∨ 2 ∣ size) := by
  constructor
  · rintro ⟨chunks, rfl, hperm⟩
    have hall : unpair chunks.flatten = all := by
      rw [← unpair_flatten, hit.flatten hcall hsize, List.drop_zero]
    refine ⟨⟨chunks.flatten, hall.symm, hperm⟩, ?_⟩
    -- the first page tells whether a page cuts between pairs
    generalize hpages : chunks.map unpair = pages at hit
    cases hit with
    | @last c i items h =>
      rw [hcall i List.mem_cons_self, Option.some.injEq] at h
      exact .inl (by rw [← Nat.zero_add size]; exact (page_last hsize h).1)
    | @next c c' i is items pages h hne hit =>
      rw [hcall i List.mem_cons_self, Option.some.injEq] at h
      obtain ⟨hlt, -, rfl⟩ := page_next h hne
      obtain ⟨chunk, -, rfl, hchunk, -⟩ := List.map_eq_cons_iff.mp hpages
      have hlen := congrArg List.length hchunk
      rw [length_unpair, List.length_take, List.drop_zero, Nat.min_eq_left (by omega)] at hlen
      exact .inr ⟨_, hlen.symm⟩
  · rintro ⟨⟨l, rfl, hperm⟩, hfit⟩
    obtain ⟨chunks, hpages, hflat⟩ := hit.chunks hcall hsize List.drop_zero
      (hfit.imp (fun h => by rw [Nat.zero_add]; exact h) id)
    exact ⟨chunks, hpages, hflat ▸ hperm⟩

end Paging
