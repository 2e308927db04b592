import ZeroFrameworks.Kv.Store.Keys

/-!
# Pub/Sub hub

`PubSubHub` keeps, for channels and for patterns alike, the sessions of each topic and the topics
of each session.  A session that subscribes twice is listed twice under its topic.
-/

namespace Kv

/-- One pair of maps of the hub: `m_channels` with `m_sessionChannels`, or `m_patterns` with
`m_sessionPatterns`.  A session without topics has no entry; here it has the empty set. -/
structure Topics where
  subs : BMap (List Nat) := ∅
  ofSession : Nat → BSet := fun _ => ∅

namespace Topics

/-- `removeFromChannelMap`, `removeFromPatternMap`. -/
def removeFromMap (topic : Bytes) (session : Nat) (subs : BMap (List Nat)) : BMap (List Nat) :=
  match subs[topic]? with
  | none => subs
  | some sessions =>
    let left := sessions.filter (· ≠ session)
    if left.isEmpty then subs.erase topic else subs.insert topic left

def subscribe (topic : Bytes) (session : Nat) (t : Topics) : Topics where
  subs := t.subs.insert topic (t.subs[topic]?.getD [] ++ [session])
  ofSession := Function.update t.ofSession session ((t.ofSession session).insert topic)

def unsubscribe (topic : Bytes) (session : Nat) (t : Topics) : Topics :=
  if (t.ofSession session).isEmpty then t
  else
    { subs := removeFromMap topic session t.subs
      ofSession := Function.update t.ofSession session ((t.ofSession session).erase topic) }

def unsubscribeAll (session : Nat) (t : Topics) : Topics where
  subs := (t.ofSession session).toList.foldl (fun subs topic => removeFromMap topic session subs) t.subs
  ofSession := Function.update t.ofSession session ∅

end Topics

structure PubSubHub where
  channels : Topics := {}
  patterns : Topics := {}

namespace PubSubHub

def subscribe (channel : Bytes) (session : Nat) (hub : PubSubHub) : PubSubHub :=
  { hub with channels := hub.channels.subscribe channel session }

def unsubscribe (channel : Bytes) (session : Nat) (hub : PubSubHub) : PubSubHub :=
  { hub with channels := hub.channels.unsubscribe channel session }

def unsubscribeAll (session : Nat) (hub : PubSubHub) : PubSubHub :=
  { hub with channels := hub.channels.unsubscribeAll session }

def psubscribe (pattern : Bytes) (session : Nat) (hub : PubSubHub) : PubSubHub :=
  { hub with patterns := hub.patterns.subscribe pattern session }

def punsubscribe (pattern : Bytes) (session : Nat) (hub : PubSubHub) : PubSubHub :=
  { hub with patterns := hub.patterns.unsubscribe pattern session }

def punsubscribeAll (session : Nat) (hub : PubSubHub) : PubSubHub :=
  { hub with patterns := hub.patterns.unsubscribeAll session }

def removeSession (session : Nat) (hub : PubSubHub) : PubSubHub :=
  (hub.unsubscribeAll session).punsubscribeAll session

def subscriptionCount (session : Nat) (hub : PubSubHub) : Int :=
  (hub.channels.ofSession session).size + (hub.patterns.ofSession session).size

/-- The pushes of `publish`, in order: to the subscribers of the channel, then to those of every
pattern that matches it. -/
def deliveries (order : List Bytes → List Bytes) (channel message : Bytes) (hub : PubSubHub) :
    List (Nat × RespValue) :=
  let direct := (hub.channels.subs[channel]?.getD []).map fun session =>
    (session, .array [.bulk (lit "message"), .bulk channel, .bulk message])
  let matched := ((order hub.patterns.subs.keys).filter (matchGlob · channel)).flatMap fun pattern =>
    (hub.patterns.subs[pattern]?.getD []).map fun session =>
      (session, .array [.bulk (lit "pmessage"), .bulk pattern, .bulk channel, .bulk message])
  direct ++ matched

end PubSubHub

end Kv
