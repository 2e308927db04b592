import ZeroFrameworks.Kv.Commands.Keys
import ZeroFrameworks.Kv.Commands.Strings
import ZeroFrameworks.Lib.Overwrite

/-!
# Operations that overwrite

What such an operation leaves in a key does not depend on what was there: it gives some keys a string,
or nothing, and leaves the others alone.  SET without options, DEL, FLUSHDB and FLUSHALL are such.
-/

namespace Kv

open Lib

variable {F : Type} [Platform F] {α β : Type}

/-! ## Specification -/

/-- What is written is a string. -/
def Strings (g : Int → Bytes → Option (Option (Item F))) : Prop :=
  ∀ db key o, g db key = some (some o) → o.type = .string

/-- Under settings that evict nothing, a run of `m` between `lo` and `hi` overwrites the keys `g` names. -/
structure OverwritesBy (lo hi : Int) (g : Int → Bytes → Option (Option (Item F))) (m : StoreM F α)
    (env : Env) (s : KvStore F) : Prop where
  view : (m env s).2.view lo = overwrite g (s.view lo)
  quiet : Quiet lo hi (m env s).2
  noEvict : (m env s).2.conf.NoEvict

def Overwrites (lo hi : Int) (m : StoreM F α) : Prop :=
  ∃ g, Strings g ∧ ∀ env s, Within lo hi env → s.conf.NoEvict → Quiet lo hi s → OverwritesBy lo hi g m env s

/-! ## Lemmas -/

omit [Platform F] in
theorem strings_none : Strings (fun _ _ => none : Int → Bytes → Option (Option (Item F))) := by
  intro db key o ho
  cases ho

omit [Platform F] in
theorem Strings.over {g h : Int → Bytes → Option (Option (Item F))} (hg : Strings g) (hh : Strings h) :
    Strings fun db key => (h db key).or (g db key) := by
  intro db key o ho
  rcases Option.or_eq_some_iff.mp ho with ho | ⟨-, ho⟩
  · exact hh db key o ho
  · exact hg db key o ho

theorem KvStore.view_eq (now : Int) (s : KvStore F) (db : Int) (key : Bytes) :
    s.view now db key = ((s.item db key).map Item.norm).filter fun o => !o.expired now :=
  KvStore.live_map_norm now s db key

variable {m : StoreM F α}

namespace Overwrites

variable {lo hi : Int}

theorem of_same (h : ∀ env s, s.conf.NoEvict → (m env s).2 = s) : Overwrites lo hi m := by
  refine ⟨fun _ _ => none, strings_none, fun env s _ hn hq => ?_⟩
  have hs := h env s hn
  exact ⟨by rw [hs, overwrite_none], by rw [hs]; exact hq, by rw [hs]; exact hn⟩

theorem pure (a : α) : Overwrites lo hi (Pure.pure a : StoreM F α) := of_same fun _ _ _ => rfl

theorem congr {m' : StoreM F β} (hm : Overwrites lo hi m)
    (h : ∀ env s, s.conf.NoEvict → (m' env s).2 = (m env s).2) : Overwrites lo hi m' := by
  obtain ⟨g, hg, hm⟩ := hm
  refine ⟨g, hg, fun env s hw hn hq => ?_⟩
  have hs := h env s hn
  obtain ⟨h1, h2, h3⟩ := hm env s hw hn hq
  exact ⟨by rw [hs, h1], by rw [hs]; exact h2, by rw [hs]; exact h3⟩

theorem seq {γ : Type} {m' : StoreM F β} {m'' : StoreM F γ} (hm : Overwrites lo hi m)
    (hm' : Overwrites lo hi m') (h : ∀ env s, (m'' env s).2 = (m' env (m env s).2).2) :
    Overwrites lo hi m'' := by
  obtain ⟨g, hg, hm⟩ := hm
  obtain ⟨g', hg', hm'⟩ := hm'
  refine ⟨fun d k => (g' d k).or (g d k), hg.over hg', fun env s hw hn hq => ?_⟩
  obtain ⟨h1, h2, h3⟩ := hm env s hw hn hq
  obtain ⟨h1', h2', h3'⟩ := hm' env (m env s).2 hw h3 h2
  refine ⟨?_, by rw [h]; exact h2', by rw [h]; exact h3'⟩
  rw [h, h1', h1, overwrite_overwrite]

/-- One key, which gets `o'` whatever was there. -/
theorem of_item (db : Int) (key : Bytes) (o' : Option (Item F))
    (hs : ∀ o, o' = some o → o.type = .string)
    (ht : ∀ o, o' = some o → o.expireAtMs = 0)
    (hitem : ∀ env s, s.conf.NoEvict → ∀ db' key', ((m env s).2.item db' key').map Item.norm =
      if db' = db ∧ key' = key then o' else (s.item db' key').map Item.norm)
    (hconf : ∀ env s, s.conf.NoEvict → (m env s).2.conf = s.conf) : Overwrites lo hi m := by
  refine ⟨fun d k => if d = db ∧ k = key then some o' else none, fun d k o ho => ?_,
    fun env s _ hn hq => ⟨?_, fun d k o ho => ?_, .of_eq (hconf env s hn) hn⟩⟩
  · dsimp only at ho
    split at ho
    · exact hs o (Option.some.inj ho)
    · cases ho
  · funext d k
    rw [overwrite_apply, KvStore.view_eq, KvStore.view_eq, hitem env s hn]
    split
    · rw [Option.getD_some]
      cases ho : o' with
      | none => rfl
      | some o =>
        have hex : o.expired lo = false := by simp [Item.expired, ht o ho]
        rw [Option.filter_some, hex]
        rfl
    · rfl
  · have hi := hitem env s hn d k
    rw [ho, Option.map_some] at hi
    split at hi
    · have hz := ht o.norm hi.symm
      exact .inl hz
    · obtain ⟨p, hp, hpo⟩ := Option.map_eq_some_iff.mp hi.symm
      have he := congrArg Item.expireAtMs hpo
      rw [Item.norm_expireAtMs, Item.norm_expireAtMs] at he
      rw [← he]
      exact hq d k p hp

end Overwrites

namespace KvStore

variable {lo hi db : Int} {key value : Bytes}

omit [Platform F] in
theorem setItem_norm (old : Option (Item F)) :
    (setItem value 0 old).norm = ({ value := value } : Item F).norm := by
  unfold setItem
  split
  · rfl
  next o =>
    split
    next ht =>
      obtain ⟨⟨t, _⟩, _⟩ := o
      cases ht
      rfl
    · rfl

theorem overwrites_set : Overwrites lo hi (set db key value : StoreM F _) := by
  have hrun : ∀ env s, s.conf.NoEvict → (set db key value env s : Bool × KvStore F).2 =
      (s.onEntry env.now db key (setBody value false false 0)).2 := by
    intro env s hn
    unfold set setOpt
    rw [StoreM.bind_apply, evictIfNeededLocked_eq_of_noEvict env s hn]
    rfl
  refine .of_item db key (some ({ value := value } : Item F).norm) ?_ ?_ ?_ ?_
  · intro o ho
    cases ho
    rfl
  · intro o ho
    cases ho
    rfl
  · intro env s hn db' key'
    rw [hrun env s hn, item_onEntry]
    split
    · have hact : ∀ old : Option (Item F), (setBody value false false 0 old).act = .put (setItem value 0 old) :=
        fun _ => rfl
      rw [hact]
      show some (setItem value 0 _).norm = _
      rw [setItem_norm]
    · rfl
  · intro env s hn
    rw [hrun env s hn, conf_onEntry]

theorem overwrites_delOne : Overwrites lo hi (delOne db key : StoreM F _) := by
  refine .of_item db key none (fun o ho => by cases ho) (fun o ho => by cases ho) ?_ ?_
  · intro env s _ db' key'
    unfold delOne StoreM.onFound
    rw [item_onFound]
    split
    · cases s.live env.now db key <;> rfl
    · rfl
  · intro env s _
    exact conf_onFound ..

theorem overwrites_delMany {keys : List Bytes} : Overwrites lo hi (delMany db keys : StoreM F _) := by
  induction keys with
  | nil => exact .pure _
  | cons key keys ih => exact .seq overwrites_delOne ih fun _ _ => rfl

theorem overwrites_flush (p : Int → Prop) [DecidablePred p]
    (hitem : ∀ env s db key, (m env s).2.item db key = if p db then none else s.item db key)
    (hconf : ∀ env s, (m env s).2.conf = s.conf) : Overwrites lo hi m := by
  refine ⟨fun d _ => if p d then some none else none, fun d k o ho => ?_,
    fun env s _ hn hq => ⟨?_, fun d k o ho => ?_, .of_eq (hconf env s) hn⟩⟩
  · dsimp only at ho
    split at ho <;> cases ho
  · funext d k
    rw [overwrite_apply, view_eq, view_eq, hitem]
    split
    · rfl
    · rfl
  · rw [hitem] at ho
    split at ho
    · cases ho
    · exact hq d k o ho

theorem overwrites_flushdb : Overwrites lo hi (flushdb db : StoreM F _) :=
  overwrites_flush (fun db' => db' = db) (fun env s db' key => item_flushdb db db' key env s)
    fun _ _ => rfl

theorem overwrites_flushall : Overwrites lo hi (flushall : StoreM F _) :=
  overwrites_flush (fun _ => True) (fun env s db' key => by rw [item_flushall, if_pos trivial])
    fun _ _ => rfl

end KvStore

namespace Commands

variable {lo hi : Int} (db : Int) {args : List RespValue}

theorem overwrites_set (h : args.length = 3) : Overwrites lo hi (set db args : StoreM F _) := by
  have hopt : args.drop 3 = [] := List.drop_eq_nil_of_le h.le
  unfold set
  rw [hopt]
  split
  · exact .pure _
  · exact .congr KvStore.overwrites_set fun _ _ _ => rfl

theorem overwrites_del : Overwrites lo hi (del db args : StoreM F _) := by
  unfold del withArg
  split
  · exact .pure _
  · split
    · exact .pure _
    · exact .congr KvStore.overwrites_delMany fun _ _ _ => rfl

theorem overwrites_flushdb : Overwrites lo hi (flushdb db args : StoreM F _) := by
  unfold flushdb
  split
  · exact .pure _
  · exact .congr KvStore.overwrites_flushdb fun _ _ _ => rfl

theorem overwrites_flushall : Overwrites lo hi (flushall db args : StoreM F _) := by
  unfold flushall
  split
  · exact .pure _
  · exact .congr KvStore.overwrites_flushall fun _ _ _ => rfl

end Commands

end Kv
