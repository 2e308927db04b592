import Mathlib.Algebra.BigOperators.Group.Finset.Basic
import Mathlib.Algebra.Order.Group.Multiset
import ZeroFrameworks.Kv.Store.Lists
import ZeroFrameworks.Kv.Store.Views
import ZeroFrameworks.Lib.Shares

/-!
# RPOPLPUSH

`listRPopLPush` is a pop and then a push, each for itself.  The element is gone when the push finds a destination of another
type.  A list of one element that is moved onto itself is erased on the way and made anew, without its deadline.

    the last element goes to the head, or nothing changes ↔ there is none, or the destination can take it
      and it is not the only one of a list with a deadline that is also the destination   (moveKeeps_iff)
-/

namespace Kv

variable {F : Type} [Platform F]

/-! ## Specification -/

/-- `x` has gone from the tail of `src` to the head of `dst`. -/
inductive Moved (db : Int) (src dst x : Bytes) (v v' : View F) : Prop where
  | across {init l : List Bytes} {d d' : Int} : src ≠ dst → v db src = some (Field.list.item (init ++ [x]) d) →
      (v db dst = some (Field.list.item l d') ∨ v db dst = none ∧ l = [] ∧ d' = 0) →
      v' = (v.set db src (shownList init d)).set db dst (some (Field.list.item (x :: l) d')) → Moved db src dst x v v'
  | around {init : List Bytes} {d : Int} : src = dst → v db src = some (Field.list.item (init ++ [x]) d) →
      v' = v.set db src (some (Field.list.item (x :: init) d)) → Moved db src dst x v v'

def elements (o : Option (Item F)) : List Bytes := o.elim [] fun o => if o.type = .list then o.list else []

/-- The elements of the lists under some keys. -/
def listed (K : Finset (Int × Bytes)) (v : View F) : Multiset Bytes := ∑ p ∈ K, (elements (v p.1 p.2) : Multiset Bytes)

/-- The element is moved and nothing else changes, or the reply is nil or an error and nothing changes at all; and no list
element is lost or gained. -/
def MoveKeeps (env : Env) (db : Int) (src dst : Bytes) (s : KvStore F) : Prop :=
  let r := KvStore.listRPopLPush db src dst env s
  ((∃ x, r.1 = .ok (some x) ∧ Moved db src dst x (s.view env.now) (r.2.view env.now)) ∨
      (∀ x, r.1 ≠ .ok (some x)) ∧ r.2.view env.now = s.view env.now) ∧
    ∀ K, (db, src) ∈ K → (db, dst) ∈ K → listed K (r.2.view env.now) = listed K (s.view env.now)

/-- The only element of a list with a deadline. -/
def LoneWithDeadline (now db : Int) (key : Bytes) (s : KvStore F) : Prop :=
  ∃ x d, d ≠ 0 ∧ Field.list.held (s.live now db key) = .value [x] d

/-! ## Lemmas -/

variable {env : Env} {db : Int} {src dst x : Bytes} {s : KvStore F} {v v' : View F} {l init : List Bytes} {d : Int}

omit [Platform F] in
theorem elements_item : elements (some (Field.list.item l d : Item F)) = l := by
  show (if (Field.list.item l d : Item F).type = .list then (Field.list.item l d : Item F).list else []) = l
  rw [if_pos (show (Field.list.item l d : Item F).type = .list from Field.item_type Field.list l d)]
  exact Field.whole_list.get_item l d

omit [Platform F] in
theorem elements_shownList : elements (shownList l d : Option (Item F)) = l := by
  unfold shownList
  cases l with
  | nil => rfl
  | cons x l => exact elements_item

omit [Platform F] in
theorem listed_set {K : Finset (Int × Bytes)} {key : Bytes} (hk : (db, key) ∈ K) (o : Option (Item F)) :
    listed K (v.set db key o) + elements (v db key) = listed K v + (elements o : Multiset Bytes) := by
  have h := Shares.sum_exchange (f := fun p => ((elements (v.set db key o p.1 p.2) : List Bytes) : Multiset Bytes))
    (g := fun p => ((elements (v p.1 p.2) : List Bytes) : Multiset Bytes)) hk (by
      intro p _ hne
      rw [View.set_of_ne fun h => hne (Prod.ext h.1 h.2)])
  dsimp only at h
  rw [View.set_self] at h
  exact h

omit [Platform F] in
theorem Moved.listed (h : Moved db src dst x v v') {K : Finset (Int × Bytes)} (hsrc : (db, src) ∈ K) (hdst : (db, dst) ∈ K) :
    listed K v' = listed K v := by
  have hperm : ∀ init l : List Bytes, ((init ++ [x] : List Bytes) : Multiset Bytes) + l =
      (init : Multiset Bytes) + (x :: l : List Bytes) := by
    intro init l
    rw [Multiset.coe_add, Multiset.coe_add, List.append_assoc, List.singleton_append]
  cases h with
  | around heq hv hv' =>
    rename_i init d
    have hset := listed_set (v := v) hsrc (some (Field.list.item (x :: init) d))
    rw [hv, elements_item, elements_item] at hset
    rw [hv']
    refine add_right_cancel (hset.trans ?_)
    congr 1
    exact Multiset.coe_eq_coe.mpr (List.perm_append_singleton _ _).symm
  | across hne hv hd hv' =>
    rename_i init l d d'
    have hfirst := listed_set (v := v) hsrc (shownList init d)
    have hsecond := listed_set (v := v.set db src (shownList init d)) hdst (some (Field.list.item (x :: l) d'))
    have helem : elements (v db dst) = l := by
      obtain hv | ⟨hv, rfl, -⟩ := hd
      · rw [hv, elements_item]
      · rw [hv]
        rfl
    rw [View.set_of_ne fun h => hne h.2.symm, helem, elements_item] at hsecond
    rw [hv, elements_item, elements_shownList] at hfirst
    rw [hv']
    refine add_right_cancel (b := ((init ++ [x] : List Bytes) : Multiset Bytes) + l) ?_
    calc _ = (Kv.listed K _ + (l : Multiset Bytes)) + ((init ++ [x] : List Bytes) : Multiset Bytes) := by
          rw [add_assoc, add_comm (l : Multiset Bytes)]
      _ = (Kv.listed K (v.set db src (shownList init d)) + ((init ++ [x] : List Bytes) : Multiset Bytes)) + (x :: l : List Bytes) := by
          rw [hsecond, add_right_comm]
      _ = Kv.listed K v + ((init : Multiset Bytes) + (x :: l : List Bytes)) := by rw [hfirst, add_assoc]
      _ = _ := by rw [hperm]

/-! ## Pop and push -/

theorem popped_last : KvStore.popped false (init ++ [x]) = some (x, init) := by
  unfold KvStore.popped
  rw [if_neg Bool.false_ne_true, List.getLast?_concat, List.dropLast_concat]
  rfl

/-- A key without a last element gives nothing and stays. -/
theorem pop_none (h : ∀ init x d, Field.list.held (s.live env.now db src) ≠ .value (init ++ [x]) d) :
    (∀ x, (KvStore.listPop db src false env s).1 ≠ .ok (some x)) ∧
      (KvStore.listPop db src false env s).2.view env.now = s.view env.now := by
  unfold KvStore.listPop
  cases hh : Field.list.held (s.live env.now db src) with
  | absent =>
    have hnone := Field.held_eq_absent.mp hh
    obtain ⟨hr, hv⟩ := onField_of_absent (L := Field.list) (KvStore.popBody false) hnone
    rw [hr, hv]
    refine ⟨fun x hx => (by cases hx), ?_⟩
    have hview : s.view env.now db src = none := by rw [KvStore.view, hnone, Option.map_none]
    exact (congrArg (View.set _ db src) hview.symm).trans View.set_eq
  | other =>
    obtain ⟨hr, hv⟩ := onField_of_other (KvStore.popBody false) hh
    rw [hr, hv]
    exact ⟨fun x hx => (by cases hx), rfl⟩
  | value l d =>
    obtain ⟨hr, hv⟩ := onField_of_value (KvStore.popBody false) Field.whole_list hh
    rw [hr, hv]
    rcases List.eq_nil_or_concat l with rfl | ⟨init, x, rfl⟩
    · exact ⟨fun x hx => (by cases hx), (congrArg (View.set _ db src) (shows_iff.mp hh).symm).trans View.set_eq⟩
    · exact absurd (by rw [hh, List.concat_eq_append]) (h init x d)

theorem pop_last (h : Field.list.held (s.live env.now db src) = .value (init ++ [x]) d) :
    (KvStore.listPop db src false env s).1 = .ok (some x) ∧
      (KvStore.listPop db src false env s).2.view env.now = View.set (s.view env.now) db src (shownList init d) := by
  obtain ⟨hr, hv⟩ := onField_of_value (KvStore.popBody false) Field.whole_list h
  have hbody : KvStore.popBody false (some (init ++ [x])) =
      { act := if init.isEmpty then .erase else .put init, bump := true, reply := .ok (some x) } := by
    unfold KvStore.popBody
    rw [Option.bind_some, popped_last]
  rw [hbody] at hr hv
  refine ⟨hr, hv.trans ?_⟩
  unfold shownList
  split <;> rfl

theorem push_other (h : Field.list.held (s.live env.now db dst) = .other) :
    (KvStore.listPush db dst [x] true env s).1 = .error wrongType ∧
      (KvStore.listPush db dst [x] true env s).2.view env.now = s.view env.now :=
  onField_of_other _ h

theorem push_absent (h : s.live env.now db dst = none) :
    (KvStore.listPush db dst [x] true env s).1 = .ok 1 ∧
      (KvStore.listPush db dst [x] true env s).2.view env.now =
        View.set (s.view env.now) db dst (some (Field.list.item [x] 0)) :=
  onField_of_absent (L := Field.list) _ h

theorem push_value (h : Field.list.held (s.live env.now db dst) = .value l d) :
    (KvStore.listPush db dst [x] true env s).1 = .ok ((x :: l).length : Int) ∧
      (KvStore.listPush db dst [x] true env s).2.view env.now =
        View.set (s.view env.now) db dst (some (Field.list.item (x :: l) d)) :=
  onField_of_value _ Field.whole_list h

theorem move_of_pop_none (h : ∀ x, (KvStore.listPop db src false env s).1 ≠ .ok (some x)) :
    KvStore.listRPopLPush db src dst env s = (.ok none, (KvStore.listPop db src false env s).2) := by
  unfold KvStore.listRPopLPush
  simp only [StoreM.bind_apply]
  cases hr : (KvStore.listPop db src false env s).1 with
  | error e => rfl
  | ok v =>
    cases v with
    | none => rfl
    | some x => exact absurd hr (h x)

theorem move_of_push_error {e : Bytes} (hpop : (KvStore.listPop db src false env s).1 = .ok (some x))
    (hpush : (KvStore.listPush db dst [x] true env (KvStore.listPop db src false env s).2).1 = .error e) :
    KvStore.listRPopLPush db src dst env s =
      (.error e, (KvStore.listPush db dst [x] true env (KvStore.listPop db src false env s).2).2) := by
  unfold KvStore.listRPopLPush
  simp only [StoreM.bind_apply]
  rw [hpop]
  simp only [StoreM.bind_apply]
  rw [hpush]
  rfl

theorem move_of_push_ok {n : Int} (hpop : (KvStore.listPop db src false env s).1 = .ok (some x))
    (hpush : (KvStore.listPush db dst [x] true env (KvStore.listPop db src false env s).2).1 = .ok n) :
    KvStore.listRPopLPush db src dst env s =
      (.ok (some x), (KvStore.listPush db dst [x] true env (KvStore.listPop db src false env s).2).2) := by
  unfold KvStore.listRPopLPush
  simp only [StoreM.bind_apply]
  rw [hpop]
  simp only [StoreM.bind_apply]
  rw [hpush]
  rfl

theorem keeps_of_moved (hr : (KvStore.listRPopLPush db src dst env s).1 = .ok (some x))
    (h : Moved db src dst x (s.view env.now) ((KvStore.listRPopLPush db src dst env s).2.view env.now)) :
    MoveKeeps env db src dst s :=
  ⟨.inl ⟨x, hr, h⟩, fun _ => h.listed⟩

theorem keeps_of_same (hr : ∀ x, (KvStore.listRPopLPush db src dst env s).1 ≠ .ok (some x))
    (hv : (KvStore.listRPopLPush db src dst env s).2.view env.now = s.view env.now) : MoveKeeps env db src dst s :=
  ⟨.inr ⟨hr, hv⟩, fun _ _ _ => congrArg (listed _) hv⟩

/-- A destination of another type loses the element. -/
theorem not_keeps_of_other (hsrc : Field.list.held (s.live env.now db src) = .value (init ++ [x]) d)
    (hdst : Field.list.held (s.live env.now db dst) = .other) : ¬ MoveKeeps env db src dst s := by
  have hne : dst ≠ src := by
    rintro rfl
    rw [hsrc] at hdst
    cases hdst
  obtain ⟨hpop, hview⟩ := pop_last hsrc
  have hdst' : Field.list.held ((KvStore.listPop db src false env s).2.live env.now db dst) = .other := by
    rw [← held_view, hview, View.set_of_ne fun h => hne h.2, held_view]
    exact hdst
  obtain ⟨hpush, hview'⟩ := push_other (x := x) hdst'
  rintro ⟨⟨y, hy, -⟩ | ⟨-, hsame⟩, -⟩
  · rw [move_of_push_error hpop hpush] at hy
    cases hy
  · rw [move_of_push_error hpop hpush, hview', hview] at hsame
    have hat := congrFun (congrFun hsame db) src
    rw [View.set_self, shows_iff.mp hsrc] at hat
    unfold shownList at hat
    split at hat
    · cases hat
    · have hlen := congrArg List.length (Field.whole_list.item_inj.mp (Option.some.inj hat)).1
      rw [List.length_append, List.length_singleton] at hlen
      omega

theorem keeps_across (hne : src ≠ dst) (hsrc : Field.list.held (s.live env.now db src) = .value (init ++ [x]) d)
    (hdst : Field.list.held (s.live env.now db dst) ≠ .other) : MoveKeeps env db src dst s := by
  obtain ⟨hpop, hview⟩ := pop_last hsrc
  have hheld : Field.list.held ((KvStore.listPop db src false env s).2.live env.now db dst) =
      Field.list.held (s.live env.now db dst) := by
    rw [← held_view, hview, View.set_of_ne fun h => hne h.2.symm, held_view]
  cases hh : Field.list.held (s.live env.now db dst) with
  | other => exact absurd hh hdst
  | absent =>
    obtain ⟨hpush, hview'⟩ := push_absent (x := x) (Field.held_eq_absent.mp (hheld.trans hh))
    refine keeps_of_moved (x := x) (by rw [move_of_push_ok hpop hpush]) (.across hne (shows_iff.mp hsrc) (.inr ⟨?_, rfl, rfl⟩) ?_)
    · rw [KvStore.view, Field.held_eq_absent.mp hh, Option.map_none]
    · rw [move_of_push_ok hpop hpush, hview', hview]
  | value l d' =>
    obtain ⟨hpush, hview'⟩ := push_value (x := x) (hheld.trans hh)
    refine keeps_of_moved (x := x) (by rw [move_of_push_ok hpop hpush])
      (.across hne (shows_iff.mp hsrc) (.inl (shows_iff.mp hh)) ?_)
    rw [move_of_push_ok hpop hpush, hview', hview]

/-- On one key the list is rotated; a lone element comes back without a deadline. -/
theorem keeps_around_iff (hsrc : Field.list.held (s.live env.now db src) = .value (init ++ [x]) d) :
    MoveKeeps env db src src s ↔ init = [] → d = 0 := by
  obtain ⟨hpop, hview⟩ := pop_last hsrc
  cases init with
  | cons y init =>
    refine ⟨fun _ h => (by cases h), fun _ => ?_⟩
    have hheld : Field.list.held ((KvStore.listPop db src false env s).2.live env.now db src) = .value (y :: init) d := by
      rw [shows_iff, hview, View.set_self]
      rfl
    obtain ⟨hpush, hview'⟩ := push_value (x := x) hheld
    refine keeps_of_moved (x := x) (by rw [move_of_push_ok hpop hpush]) (.around rfl (shows_iff.mp hsrc) ?_)
    rw [move_of_push_ok hpop hpush, hview', hview, View.set_set]
  | nil =>
    have hnone : (KvStore.listPop db src false env s).2.live env.now db src = none := by
      rw [← Field.held_eq_absent (L := Field.list), ← held_view, hview, View.set_self]
      rfl
    obtain ⟨hpush, hview'⟩ := push_absent (x := x) hnone
    have hmove := move_of_push_ok hpop hpush
    have hafter : (KvStore.listRPopLPush db src src env s).2.view env.now =
        View.set (s.view env.now) db src (some (Field.list.item [x] 0)) := by
      rw [hmove, hview', hview, View.set_set]
    constructor
    · rintro ⟨⟨y, -, hmoved⟩ | ⟨hr, -⟩, -⟩ -
      · rw [hafter] at hmoved
        cases hmoved with
        | across hne => exact absurd rfl hne
        | around _ hv hv' =>
          have hfrom := Field.whole_list.item_inj.mp (Option.some.inj ((shows_iff.mp hsrc).symm.trans hv))
          have hat := congrFun (congrFun hv' db) src
          rw [View.set_self, View.set_self] at hat
          rw [hfrom.2]
          exact (Field.whole_list.item_inj.mp (Option.some.inj hat)).2.symm
      · exact absurd (by rw [hmove]) (hr x)
    · intro hd
      refine keeps_of_moved (x := x) (by rw [hmove]) (.around rfl (shows_iff.mp hsrc) ?_)
      rw [hafter, hd rfl]

theorem canMove_iff : KvStore.CanMove env.now db src dst s ↔ Field.list.held (s.live env.now db dst) ≠ .other ∨
    ∀ init x d, Field.list.held (s.live env.now db src) ≠ .value (init ++ [x]) d := by
  have hdst : HasType .list env.now db dst s ↔ Field.list.held (s.live env.now db dst) ≠ .other := by
    constructor
    · intro h hother
      obtain ⟨p, hp, hne⟩ := Field.held_eq_other.mp hother
      exact hne (h p hp)
    · intro h p hp
      by_contra hne
      exact h (Field.held_eq_other.mpr ⟨p, hp, hne⟩)
  have hsrc : (∀ o, s.live env.now db src = some o → o.type = .list → o.list = []) ↔
      ∀ init x d, Field.list.held (s.live env.now db src) ≠ .value (init ++ [x]) d := by
    constructor
    · intro h init x d hheld
      cases ho : s.live env.now db src with
      | none => rw [ho] at hheld; cases hheld
      | some o =>
        by_cases ht : o.type = .list
        · rw [ho, Field.held_of_type (L := Field.list) ht] at hheld
          have hnil : Field.list.get o.toObj = [] := h o ho ht
          rw [hnil] at hheld
          have := congrArg List.length (Held.value.inj hheld).1
          simp at this
        · rw [ho, Field.held_of_ne (L := Field.list) ht] at hheld
          cases hheld
    · intro h o ho ht
      rcases List.eq_nil_or_concat o.list with hnil | ⟨init, x, hl⟩
      · exact hnil
      · refine absurd ?_ (h init x o.expireAtMs)
        rw [ho, Field.held_of_type (L := Field.list) ht, ← List.concat_eq_append, ← hl]
        rfl
  exact or_congr hdst hsrc

/-! ## Top theorem -/

theorem moveKeeps_iff (env : Env) (db : Int) (src dst : Bytes) (s : KvStore F) :
    MoveKeeps env db src dst s ↔
      KvStore.CanMove env.now db src dst s ∧ ¬(src = dst ∧ LoneWithDeadline env.now db src s) := by
  rw [canMove_iff]
  by_cases hlast : ∀ init x d, Field.list.held (s.live env.now db src) ≠ .value (init ++ [x]) d
  · have hkeeps : MoveKeeps env db src dst s := by
      obtain ⟨hr, hv⟩ := pop_none hlast
      refine keeps_of_same ?_ ?_ <;> rw [move_of_pop_none hr]
      · exact fun x hx => (by cases hx)
      · exact hv
    refine ⟨fun _ => ⟨.inr hlast, ?_⟩, fun _ => hkeeps⟩
    rintro ⟨-, x, d, -, hx⟩
    exact hlast [] x d hx
  · obtain ⟨init, x, d, hsrc⟩ : ∃ init x d, Field.list.held (s.live env.now db src) = .value (init ++ [x]) d := by
      by_contra h
      exact hlast fun init x d hx => h ⟨init, x, d, hx⟩
    by_cases hk : src = dst
    · subst hk
      rw [keeps_around_iff hsrc]
      constructor
      · intro h
        refine ⟨.inl (by rw [hsrc]; exact fun h => (by cases h)), ?_⟩
        rintro ⟨-, y, e, he, hy⟩
        obtain ⟨hl, rfl⟩ := Held.value.inj (hsrc.symm.trans hy)
        refine he (h ?_)
        have hlen := congrArg List.length hl
        rw [List.length_append, List.length_singleton, List.length_singleton] at hlen
        exact List.eq_nil_of_length_eq_zero (by omega)
      · rintro ⟨-, h⟩ rfl
        by_contra hd
        exact h ⟨rfl, x, d, hd, hsrc⟩
    · by_cases hdst : Field.list.held (s.live env.now db dst) = .other
      · refine ⟨fun h => absurd h (not_keeps_of_other hsrc hdst), ?_⟩
        rintro ⟨h | h, -⟩
        · exact absurd hdst h
        · exact absurd hsrc (h init x d)
      · exact ⟨fun _ => ⟨.inl hdst, fun h => hk h.1⟩, fun _ => keeps_across hk hsrc hdst⟩

/-- A list of one element with a deadline, and a string. -/
def listAndString : KvStore Int :=
  (KvStore.empty.putEntry 0 (lit "l") (some { type := .list, list := [lit "x"], expireAtMs := 9 })).putEntry 0 (lit "s")
    (some { value := lit "v" })

/-- Onto the string the element is lost, and onto its own list the deadline. -/
theorem rpoplpush_loses :
    ¬ MoveKeeps { now := 0 } 0 (lit "l") (lit "s") listAndString ∧
      ¬ MoveKeeps { now := 0 } 0 (lit "l") (lit "l") listAndString := by
  have hlist : Field.list.held (listAndString.live 0 0 (lit "l")) = .value ([] ++ [lit "x"]) 9 := by rfl
  have hstring : Field.list.held (listAndString.live 0 0 (lit "s")) = .other := by rfl
  refine ⟨not_keeps_of_other hlist hstring, fun h => ?_⟩
  exact absurd ((keeps_around_iff hlist).mp h rfl) (by decide)

end Kv
