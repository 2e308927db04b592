import ZeroFrameworks.Kv.Server.PubSub

/-!
# Who gets a message

The hub keeps who subscribes to what twice: the sessions of a topic as a list, the topics of a session
as a set.  Both always describe one relation, and `subscriptionCount` counts it.  A session that
subscribes again to a topic it has is listed once more, and then gets every message once more; so each
message is delivered once if and only if nobody does:

    Along ExactAfter {} calls ↔ Along Fresh {} calls
-/

namespace Kv

/-! ## Calls -/

inductive PubSubCall where
  | subscribe (channel : Bytes) (session : Nat)
  | unsubscribe (channel : Bytes) (session : Nat)
  | unsubscribeAll (session : Nat)
  | psubscribe (pattern : Bytes) (session : Nat)
  | punsubscribe (pattern : Bytes) (session : Nat)
  | punsubscribeAll (session : Nat)
  | removeSession (session : Nat)

namespace Topics

/-- How often a session is listed under a topic. -/
def listedIn (subs : BMap (List Nat)) (topic : Bytes) (session : Nat) : Nat := (subs[topic]?.getD []).count session

def listed (t : Topics) (topic : Bytes) (session : Nat) : Nat := listedIn t.subs topic session

/-- The topics a session is listed under. -/
def topicsOf (t : Topics) (session : Nat) : List Bytes := t.subs.keys.filter fun topic => t.listed topic session ≠ 0

/-- The two maps describe one relation. -/
def Agree (t : Topics) : Prop := ∀ topic session, t.listed topic session ≠ 0 ↔ topic ∈ t.ofSession session

/-- Nobody is listed twice. -/
def Once (t : Topics) : Prop := ∀ topic session, t.listed topic session ≤ 1

end Topics

namespace PubSubHub

def next (hub : PubSubHub) (call : PubSubCall) : PubSubHub :=
  match call with
  | .subscribe channel session => hub.subscribe channel session
  | .unsubscribe channel session => hub.unsubscribe channel session
  | .unsubscribeAll session => hub.unsubscribeAll session
  | .psubscribe pattern session => hub.psubscribe pattern session
  | .punsubscribe pattern session => hub.punsubscribe pattern session
  | .punsubscribeAll session => hub.punsubscribeAll session
  | .removeSession session => hub.removeSession session

/-- A property of every call, with the hub before it. -/
def Along (P : PubSubHub → PubSubCall → Prop) (hub : PubSubHub) : List PubSubCall → Prop
  | [] => True
  | call :: calls => P hub call ∧ Along P (hub.next call) calls

def channelMessage (channel message : Bytes) : RespValue :=
  .array [.bulk (lit "message"), .bulk channel, .bulk message]

def patternMessage (pattern channel message : Bytes) : RespValue :=
  .array [.bulk (lit "pmessage"), .bulk pattern, .bulk channel, .bulk message]

/-- What a session is to get of a message: once for the channel, once for each of its patterns. -/
def due (hub : PubSubHub) (channel message : Bytes) (session : Nat) : List RespValue :=
  (if channel ∈ hub.channels.ofSession session then [channelMessage channel message] else []) ++
    ((hub.patterns.ofSession session).toList.filter (matchGlob · channel)).map fun pattern =>
      patternMessage pattern channel message

/-- What `publish` sends to a session. -/
def sent (hub : PubSubHub) (env : Env) (channel message : Bytes) (session : Nat) : List RespValue :=
  ((hub.deliveries env.order channel message).filter fun d => decide (d.1 = session)).map Prod.snd

structure Exact (hub : PubSubHub) : Prop where
  channels : hub.channels.Agree
  patterns : hub.patterns.Agree
  count : ∀ session, hub.subscriptionCount session =
    (hub.channels.topicsOf session).length + (hub.patterns.topicsOf session).length
  publish : ∀ env channel message session,
    (hub.sent env channel message session).Perm (hub.due channel message session)

def ExactAfter (hub : PubSubHub) (call : PubSubCall) : Prop := (hub.next call).Exact

/-- Nobody subscribes to what it has subscribed to. -/
def Fresh (hub : PubSubHub) (call : PubSubCall) : Prop :=
  match call with
  | .subscribe channel session => channel ∉ hub.channels.ofSession session
  | .psubscribe pattern session => pattern ∉ hub.patterns.ofSession session
  | _ => True

end PubSubHub

/-! ## Lemmas -/

theorem matchGlob_self (pattern : Bytes) : matchGlob pattern pattern = true := by
  have hloop : ∀ rest fuel k, pattern.length = rest + k → rest < fuel →
      globLoop pattern pattern fuel k k none = true := by
    intro rest
    induction rest with
    | zero =>
      intro fuel k hk hfuel
      obtain ⟨fuel, rfl⟩ := Nat.exists_eq_succ_of_ne_zero (by omega : fuel ≠ 0)
      unfold globLoop
      rw [dif_neg (by omega), List.drop_eq_nil_of_le (by omega)]
      rfl
    | succ rest ih =>
      intro fuel k hk hfuel
      obtain ⟨fuel, rfl⟩ := Nat.exists_eq_succ_of_ne_zero (by omega : fuel ≠ 0)
      have hlt : k < pattern.length := by omega
      unfold globLoop
      rw [dif_pos hlt, if_pos (.inr (List.getElem?_eq_getElem hlt))]
      exact ih fuel (k + 1) (by omega) (by omega)
  refine hloop pattern.length _ 0 rfl ?_
  have hfuel : 1 * (pattern.length + pattern.length + 2) ≤
      (pattern.length + 2) * (pattern.length + pattern.length + 2) := Nat.mul_le_mul_right _ (by omega)
  omega

namespace Topics

variable {t : Topics} {subs : BMap (List Nat)} {topic a : Bytes} {session n : Nat} {l : List Nat}

theorem listedIn_insert : listedIn (subs.insert a l) topic session =
    if topic = a then l.count session else listedIn subs topic session := by
  unfold listedIn
  rw [Std.ExtTreeMap.getElem?_insert]
  by_cases ha : topic = a
  · subst ha
    rw [if_pos rfl, if_pos Std.ReflCmp.compare_self]
    rfl
  · rw [if_neg ha, if_neg fun hc => ha (Std.LawfulEqCmp.eq_of_compare hc).symm]

theorem listedIn_erase : listedIn (subs.erase a) topic session =
    if topic = a then 0 else listedIn subs topic session := by
  unfold listedIn
  rw [Std.ExtTreeMap.getElem?_erase]
  by_cases ha : topic = a
  · subst ha
    rw [if_pos rfl, if_pos Std.ReflCmp.compare_self]
    rfl
  · rw [if_neg ha, if_neg fun hc => ha (Std.LawfulEqCmp.eq_of_compare hc).symm]

theorem listedIn_removeFromMap : listedIn (removeFromMap a n subs) topic session =
    if topic = a ∧ session = n then 0 else listedIn subs topic session := by
  have hleft : ∀ sessions : List Nat, (sessions.filter (· ≠ n)).count session =
      if session = n then 0 else sessions.count session := by
    intro sessions
    by_cases hn : session = n
    · rw [if_pos hn, List.count_eq_zero]
      intro hmem
      exact of_decide_eq_true (List.mem_filter.mp hmem).2 hn
    · rw [if_neg hn, List.count_filter (p := fun m => decide (m ≠ n)) (decide_eq_true hn)]
  unfold removeFromMap
  split
  · next hnone =>
    split
    · next heq =>
      rw [heq.1]
      unfold listedIn
      rw [hnone]
      rfl
    · rfl
  · next sessions hsome =>
    have hold : listedIn subs a session = sessions.count session := by
      unfold listedIn
      rw [hsome]
      rfl
    by_cases hempty : (sessions.filter (· ≠ n)).isEmpty = true
    · rw [if_pos hempty, listedIn_erase]
      by_cases ha : topic = a
      · subst ha
        have hzero := hleft sessions
        rw [List.isEmpty_iff.mp hempty, List.count_nil] at hzero
        rw [if_pos rfl, hold]
        simp only [true_and]
        exact hzero
      · rw [if_neg ha, if_neg fun h => ha h.1]
    · rw [if_neg hempty, listedIn_insert]
      by_cases ha : topic = a
      · subst ha
        rw [if_pos rfl, hold, hleft]
        simp only [true_and]
      · rw [if_neg ha, if_neg fun h => ha h.1]

theorem listed_subscribe :
    (t.subscribe a n).listed topic session = t.listed topic session + if topic = a ∧ session = n then 1 else 0 := by
  show listedIn (t.subs.insert a (t.subs[a]?.getD [] ++ [n])) topic session = _
  rw [listedIn_insert]
  by_cases ha : topic = a
  · subst ha
    rw [if_pos rfl, List.count_append]
    by_cases hn : session = n
    · rw [if_pos ⟨rfl, hn⟩, hn, List.count_singleton_self]
      rfl
    · rw [if_neg fun h => hn h.2, List.count_eq_zero.mpr fun h => hn (List.mem_singleton.mp h)]
      rfl
  · rw [if_neg ha, if_neg fun h => ha h.1]
    rfl

theorem mem_subscribe :
    topic ∈ (t.subscribe a n).ofSession session ↔ topic ∈ t.ofSession session ∨ topic = a ∧ session = n := by
  show topic ∈ Function.update t.ofSession n ((t.ofSession n).insert a) session ↔ _
  by_cases hn : session = n
  · subst hn
    rw [Function.update_self, Std.ExtTreeSet.mem_insert]
    constructor
    · rintro (hc | h)
      · exact .inr ⟨(Std.LawfulEqCmp.eq_of_compare hc).symm, rfl⟩
      · exact .inl h
    · rintro (h | ⟨rfl, -⟩)
      · exact .inr h
      · exact .inl Std.ReflCmp.compare_self
  · rw [Function.update_of_ne hn]
    exact ⟨.inl, fun h => h.resolve_right fun h => hn h.2⟩

theorem Agree.subscribe (h : t.Agree) : (t.subscribe a n).Agree := by
  intro topic session
  rw [listed_subscribe, mem_subscribe, ← h]
  by_cases heq : topic = a ∧ session = n
  · rw [if_pos heq]
    exact ⟨fun _ => .inr heq, fun _ => by omega⟩
  · rw [if_neg heq, Nat.add_zero]
    exact ⟨.inl, fun h => h.resolve_right heq⟩

theorem Once.subscribe_iff (h : t.Agree) (ho : t.Once) : (t.subscribe a n).Once ↔ a ∉ t.ofSession n := by
  constructor
  · intro honce hmem
    have hle := honce a n
    rw [listed_subscribe, if_pos ⟨rfl, rfl⟩] at hle
    have hpos := (h a n).mpr hmem
    omega
  · intro hfresh topic session
    rw [listed_subscribe]
    by_cases heq : topic = a ∧ session = n
    · rw [if_pos heq, heq.1, heq.2]
      have hzero : t.listed a n = 0 := by
        by_contra hne
        exact hfresh ((h a n).mp hne)
      omega
    · rw [if_neg heq]
      exact ho topic session

/-- What is left when one session leaves some topics. -/
structure Leaves (n : Nat) (t t' : Topics) (gone : Bytes → Prop) : Prop where
  listed : ∀ topic session, t'.listed topic session = t.listed topic session ∧ ¬(session = n ∧ gone topic) ∨
    t'.listed topic session = 0 ∧ session = n ∧ gone topic
  mem : ∀ topic session, topic ∈ t'.ofSession session ↔ topic ∈ t.ofSession session ∧ ¬(session = n ∧ gone topic)

theorem Leaves.agree {t' : Topics} {gone : Bytes → Prop} (hl : Leaves n t t' gone) (h : t.Agree) : t'.Agree := by
  intro topic session
  rw [hl.mem, ← h]
  rcases hl.listed topic session with ⟨heq, hstays⟩ | ⟨heq, hgone⟩
  · rw [heq]
    exact ⟨fun hne => ⟨hne, hstays⟩, fun h => h.1⟩
  · rw [heq]
    exact ⟨fun hne => absurd rfl hne, fun h => absurd hgone h.2⟩

theorem Leaves.once {t' : Topics} {gone : Bytes → Prop} (hl : Leaves n t t' gone) (h : t.Once) : t'.Once := by
  intro topic session
  rcases hl.listed topic session with ⟨heq, _⟩ | ⟨heq, _⟩
  · rw [heq]
    exact h topic session
  · rw [heq]
    exact Nat.zero_le 1

theorem Agree.listed_eq_zero (h : t.Agree) (hn : topic ∉ t.ofSession session) : t.listed topic session = 0 := by
  by_contra hne
  exact hn ((h topic session).mp hne)

theorem Agree.unsubscribe (h : t.Agree) : Leaves n t (t.unsubscribe a n) (· = a) := by
  unfold Topics.unsubscribe
  by_cases hempty : (t.ofSession n).isEmpty = true
  · rw [if_pos hempty]
    have hnone : ∀ topic, topic ∉ t.ofSession n := by
      intro topic
      rw [Std.ExtTreeSet.isEmpty_iff.mp hempty]
      exact Std.ExtTreeSet.not_mem_empty
    constructor
    · intro topic session
      by_cases hgone : session = n ∧ topic = a
      · refine .inr ⟨?_, hgone⟩
        rw [hgone.1]
        exact h.listed_eq_zero (hnone topic)
      · exact .inl ⟨rfl, hgone⟩
    · intro topic session
      refine ⟨fun hmem => ⟨hmem, ?_⟩, fun h => h.1⟩
      rintro ⟨rfl, -⟩
      exact hnone topic hmem
  · rw [if_neg hempty]
    constructor
    · intro topic session
      show listedIn (removeFromMap a n t.subs) topic session = _ ∧ _ ∨ listedIn (removeFromMap a n t.subs) topic session = 0 ∧ _
      rw [listedIn_removeFromMap]
      by_cases hgone : topic = a ∧ session = n
      · rw [if_pos hgone]
        exact .inr ⟨rfl, hgone.2, hgone.1⟩
      · rw [if_neg hgone]
        exact .inl ⟨rfl, fun h => hgone ⟨h.2, h.1⟩⟩
    · intro topic session
      show topic ∈ Function.update t.ofSession n ((t.ofSession n).erase a) session ↔ _
      by_cases hn : session = n
      · subst hn
        rw [Function.update_self, Std.ExtTreeSet.mem_erase]
        constructor
        · rintro ⟨hc, hmem⟩
          refine ⟨hmem, ?_⟩
          rintro ⟨-, rfl⟩
          exact hc Std.ReflCmp.compare_self
        · rintro ⟨hmem, hstays⟩
          exact ⟨fun hc => hstays ⟨rfl, (Std.LawfulEqCmp.eq_of_compare hc).symm⟩, hmem⟩
      · rw [Function.update_of_ne hn]
        exact ⟨fun hmem => ⟨hmem, fun h => hn h.1⟩, fun h => h.1⟩

theorem listedIn_removeAll (gone : List Bytes) :
    listedIn (gone.foldl (fun subs topic => removeFromMap topic n subs) subs) topic session =
      if topic ∈ gone ∧ session = n then 0 else listedIn subs topic session := by
  induction gone generalizing subs with
  | nil => simp
  | cons a gone ih =>
    rw [List.foldl_cons, ih, listedIn_removeFromMap]
    by_cases hn : session = n
    · simp only [hn, and_true, List.mem_cons]
      by_cases hg : topic ∈ gone
      · rw [if_pos hg, if_pos (.inr hg)]
      · rw [if_neg hg]
        simp only [hg, or_false]
    · rw [if_neg fun h => hn h.2, if_neg fun h => hn h.2, if_neg fun h => hn h.2]

theorem Agree.unsubscribeAll (h : t.Agree) : Leaves n t (t.unsubscribeAll n) fun _ => True := by
  constructor
  · intro topic session
    have hlisted : (t.unsubscribeAll n).listed topic session =
        if topic ∈ (t.ofSession n).toList ∧ session = n then 0 else t.listed topic session := listedIn_removeAll _
    rw [hlisted]
    by_cases hn : session = n
    · subst hn
      refine .inr ⟨?_, rfl, trivial⟩
      by_cases hmem : topic ∈ t.ofSession session
      · exact if_pos ⟨Std.ExtTreeSet.mem_toList.mpr hmem, rfl⟩
      · rw [if_neg fun h => hmem (Std.ExtTreeSet.mem_toList.mp h.1)]
        exact h.listed_eq_zero hmem
    · rw [if_neg fun h => hn h.2]
      exact .inl ⟨rfl, fun h => hn h.1⟩
  · intro topic session
    show topic ∈ Function.update t.ofSession n ∅ session ↔ _
    by_cases hn : session = n
    · subst hn
      rw [Function.update_self]
      exact ⟨fun h => absurd h Std.ExtTreeSet.not_mem_empty, fun h => absurd ⟨rfl, trivial⟩ h.2⟩
    · rw [Function.update_of_ne hn]
      exact ⟨fun hmem => ⟨hmem, fun h => hn h.1⟩, fun h => h.1⟩

theorem nodup_toList (s : BSet) : s.toList.Nodup := by
  refine s.distinct_toList.imp ?_
  rintro x y hne rfl
  exact hne Std.ReflCmp.compare_self

theorem mem_keys_of_listed (h : t.listed topic session ≠ 0) : topic ∈ t.subs.keys := by
  rw [Std.ExtTreeMap.mem_keys, Std.ExtTreeMap.mem_iff_isSome_getElem?]
  by_contra hnone
  apply h
  show (t.subs[topic]?.getD []).count session = 0
  rw [Option.not_isSome_iff_eq_none.mp hnone]
  rfl

theorem Agree.topicsOf_perm (h : t.Agree) (session : Nat) : (t.topicsOf session).Perm (t.ofSession session).toList := by
  refine (List.perm_ext_iff_of_nodup (Std.ExtTreeMap.nodup_keys.filter _) (nodup_toList _)).mpr ?_
  intro topic
  rw [List.mem_filter, Std.ExtTreeSet.mem_toList, decide_eq_true_eq, h]
  exact ⟨fun h => h.2, fun hmem => ⟨mem_keys_of_listed ((h topic session).mpr hmem), hmem⟩⟩

theorem Once.listed_eq (ho : t.Once) (h : t.Agree) :
    t.listed topic session = if topic ∈ t.ofSession session then 1 else 0 := by
  have hle := ho topic session
  split
  · next hmem =>
    have hpos := (h topic session).mpr hmem
    omega
  · next hnot => exact h.listed_eq_zero hnot

end Topics

namespace PubSubHub

variable {hub : PubSubHub} {env : Env} {channel message : Bytes} {session : Nat}

theorem filter_sessions (v : RespValue) (sessions : List Nat) :
    ((sessions.map fun n => (n, v)).filter fun d => decide (d.1 = session)).map Prod.snd =
      List.replicate (sessions.count session) v := by
  induction sessions with
  | nil => rfl
  | cons n sessions ih =>
    rw [List.map_cons]
    by_cases hn : n = session
    · rw [List.filter_cons_of_pos (by simpa using hn), List.map_cons, ih, hn, List.count_cons_self,
        List.replicate_succ]
    · rw [List.filter_cons_of_neg (by simpa using hn), ih, List.count_cons_of_ne hn]

theorem sent_eq : hub.sent env channel message session =
    List.replicate (hub.channels.listed channel session) (channelMessage channel message) ++
      ((env.order hub.patterns.subs.keys).filter (matchGlob · channel)).flatMap fun pattern =>
        List.replicate (hub.patterns.listed pattern session) (patternMessage pattern channel message) := by
  unfold sent deliveries
  rw [List.filter_append, List.map_append]
  congr 1
  · exact filter_sessions _ _
  · rw [List.filter_flatMap, List.map_flatMap]
    congr 1
    funext pattern
    exact filter_sessions _ _

theorem due_nodup : (hub.due channel message session).Nodup := by
  unfold due
  refine List.Nodup.append ?_ ?_ ?_
  · split
    · exact List.nodup_singleton _
    · exact List.nodup_nil
  · refine ((Topics.nodup_toList _).filter _).map ?_
    intro p q heq
    unfold patternMessage at heq
    injection heq with heq
    injection heq with _ heq
    injection heq with heq
    injection heq
  · intro v hv hv'
    obtain ⟨pattern, _, rfl⟩ := List.mem_map.mp hv'
    split at hv
    · have heq := List.mem_singleton.mp hv
      unfold patternMessage channelMessage at heq
      injection heq with heq
      injection heq with _ heq
      injection heq with _ heq
      injection heq with _ heq
      cases heq
    · cases hv

theorem once_of_exact (h : hub.Exact) : hub.channels.Once ∧ hub.patterns.Once := by
  have hnodup : ∀ channel session, (hub.sent { now := 0 } channel [] session).Nodup := fun channel session =>
    (h.publish { now := 0 } channel [] session).nodup_iff.mpr due_nodup
  simp only [sent_eq] at hnodup
  constructor
  · intro channel session
    exact List.nodup_replicate.mp (hnodup channel session).of_append_left
  · intro pattern session
    by_cases hzero : hub.patterns.listed pattern session = 0
    · rw [hzero]
      exact Nat.zero_le 1
    · have hmem : pattern ∈ (hub.patterns.subs.keys).filter (matchGlob · pattern) :=
        List.mem_filter.mpr ⟨Topics.mem_keys_of_listed hzero, matchGlob_self pattern⟩
      exact List.nodup_replicate.mp ((List.nodup_flatMap.mp (hnodup pattern session).of_append_right).1 pattern hmem)

theorem flatMap_replicate {P : Bytes → Prop} [DecidablePred P] (g : Bytes → RespValue) (l : List Bytes) :
    (l.flatMap fun x => List.replicate (if P x then 1 else 0) (g x)) = (l.filter fun x => decide (P x)).map g := by
  induction l with
  | nil => rfl
  | cons x l ih =>
    rw [List.flatMap_cons, ih]
    by_cases hx : P x
    · rw [if_pos hx, List.filter_cons_of_pos (by simpa using hx)]
      rfl
    · rw [if_neg hx, List.filter_cons_of_neg (by simpa using hx)]
      rfl

theorem sent_perm_due (hc : hub.channels.Agree) (hp : hub.patterns.Agree) (hco : hub.channels.Once)
    (hpo : hub.patterns.Once) : (hub.sent env channel message session).Perm (hub.due channel message session) := by
  rw [sent_eq]
  unfold due
  refine List.Perm.append ?_ ?_
  · rw [hco.listed_eq hc]
    split <;> exact List.Perm.refl _
  · simp only [hpo.listed_eq hp]
    rw [flatMap_replicate]
    apply List.Perm.map
    have hkeys : (env.order hub.patterns.subs.keys).Nodup :=
      (env.order_perm _).nodup_iff.mpr Std.ExtTreeMap.nodup_keys
    refine (List.perm_ext_iff_of_nodup ((hkeys.filter _).filter _) ((Topics.nodup_toList _).filter _)).mpr ?_
    intro pattern
    rw [List.mem_filter, List.mem_filter, List.mem_filter, Std.ExtTreeSet.mem_toList, decide_eq_true_eq,
      (env.order_perm _).mem_iff]
    constructor
    · rintro ⟨⟨_, hmatch⟩, hmem⟩
      exact ⟨hmem, hmatch⟩
    · rintro ⟨hmem, hmatch⟩
      exact ⟨⟨Topics.mem_keys_of_listed ((hp pattern session).mpr hmem), hmatch⟩, hmem⟩

theorem exact_iff_once (hc : hub.channels.Agree) (hp : hub.patterns.Agree) :
    hub.Exact ↔ hub.channels.Once ∧ hub.patterns.Once := by
  constructor
  · exact once_of_exact
  · rintro ⟨hco, hpo⟩
    refine ⟨hc, hp, ?_, fun env channel message session => sent_perm_due hc hp hco hpo⟩
    intro session
    rw [(hc.topicsOf_perm session).length_eq, (hp.topicsOf_perm session).length_eq, Std.ExtTreeSet.length_toList,
      Std.ExtTreeSet.length_toList]
    rfl

/-- A call keeps the maps in agreement, and delivery exact if it is fresh. -/
theorem next_spec (hc : hub.channels.Agree) (hp : hub.patterns.Agree) (hco : hub.channels.Once)
    (hpo : hub.patterns.Once) (call : PubSubCall) :
    (hub.next call).channels.Agree ∧ (hub.next call).patterns.Agree ∧
      ((hub.next call).channels.Once ∧ (hub.next call).patterns.Once ↔ hub.Fresh call) := by
  cases call with
  | subscribe channel session =>
    refine ⟨hc.subscribe, hp, ?_⟩
    exact (and_iff_left hpo).trans (hco.subscribe_iff hc)
  | psubscribe pattern session =>
    refine ⟨hc, hp.subscribe, ?_⟩
    exact (and_iff_right hco).trans (hpo.subscribe_iff hp)
  | unsubscribe channel session =>
    exact ⟨hc.unsubscribe.agree hc, hp, iff_of_true ⟨hc.unsubscribe.once hco, hpo⟩ trivial⟩
  | unsubscribeAll session =>
    exact ⟨hc.unsubscribeAll.agree hc, hp, iff_of_true ⟨hc.unsubscribeAll.once hco, hpo⟩ trivial⟩
  | punsubscribe pattern session =>
    exact ⟨hc, hp.unsubscribe.agree hp, iff_of_true ⟨hco, hp.unsubscribe.once hpo⟩ trivial⟩
  | punsubscribeAll session =>
    exact ⟨hc, hp.unsubscribeAll.agree hp, iff_of_true ⟨hco, hp.unsubscribeAll.once hpo⟩ trivial⟩
  | removeSession session =>
    exact ⟨hc.unsubscribeAll.agree hc, hp.unsubscribeAll.agree hp,
      iff_of_true ⟨hc.unsubscribeAll.once hco, hp.unsubscribeAll.once hpo⟩ trivial⟩

theorem along_exact_iff (hc : hub.channels.Agree) (hp : hub.patterns.Agree) (hco : hub.channels.Once)
    (hpo : hub.patterns.Once) (calls : List PubSubCall) : hub.Along ExactAfter calls ↔ hub.Along Fresh calls := by
  induction calls generalizing hub with
  | nil => exact Iff.rfl
  | cons call calls ih =>
    obtain ⟨hc', hp', hfresh⟩ := next_spec hc hp hco hpo call
    have hexact : hub.ExactAfter call ↔ hub.Fresh call := (exact_iff_once hc' hp').trans hfresh
    constructor
    · rintro ⟨hnow, hlater⟩
      obtain ⟨hco', hpo'⟩ := (exact_iff_once hc' hp').mp hnow
      exact ⟨hexact.mp hnow, (ih hc' hp' hco' hpo').mp hlater⟩
    · rintro ⟨hnow, hlater⟩
      obtain ⟨hco', hpo'⟩ := hfresh.mpr hnow
      exact ⟨hexact.mpr hnow, (ih hc' hp' hco' hpo').mpr hlater⟩

end PubSubHub

namespace Topics

theorem agree_empty : ({} : Topics).Agree := by
  intro topic session
  exact ⟨fun h => absurd rfl h, fun h => absurd h Std.ExtTreeSet.not_mem_empty⟩

theorem once_empty : ({} : Topics).Once := fun _ _ => Nat.zero_le 1

end Topics

/-! ## Top theorem -/

/-- **Every session gets every message once for its channel and once for each pattern if and only if no
session subscribes to a channel or a pattern it already has.** -/
theorem delivered_once_iff_fresh (calls : List PubSubCall) :
    ({} : PubSubHub).Along PubSubHub.ExactAfter calls ↔ ({} : PubSubHub).Along PubSubHub.Fresh calls :=
  PubSubHub.along_exact_iff Topics.agree_empty Topics.agree_empty Topics.once_empty Topics.once_empty calls

/-- SUBSCRIBE c, twice: a message to `c` is sent twice. -/
theorem delivered_twice :
    ¬({} : PubSubHub).Along PubSubHub.ExactAfter [.subscribe (lit "c") 1, .subscribe (lit "c") 1] := by
  rintro ⟨_, hexact, _⟩
  have hlength := (hexact.publish { now := 0 } (lit "c") (lit "m") 1).length_eq
  revert hlength
  decide +kernel

end Kv
