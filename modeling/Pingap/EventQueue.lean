import Mathlib.Data.List.Basic

/-!
# The security event queue

A bounded queue of notifications. When it is full a detection gives way to an
enforcement or a lifecycle record, and whatever finds no place is counted.
-/

namespace EventQueue

inductive Verdict where
  | block
  | redact
  | detect
deriving DecidableEq, Repr

def Verdict.droppable (v : Verdict) : Bool := v == .detect

structure WafEvent where
  node : String
  domain : String
  profile : String
  ruleId : Option Nat
  category : Option String
  severity : Option String
  score : Nat
  verdict : Verdict
  clientIp : Option String
  method : Option String
  uri : Option String
  createdAt : Int
deriving DecidableEq, Repr

inductive NativeKind where
  | detected
  | created
  | released
  | expired
deriving DecidableEq, Repr

structure NativeActor where
  id : Option String := none
  username : String := "system"
deriving DecidableEq, Repr

structure NativeLifecycle where
  version : Nat
  kind : NativeKind
  id : String
  epoch : String
  profile : String
  domain : String
  clientIp : String
  scenario : String
  mode : String
  createdAtMs : Nat
  expiresAtMs : Option Nat
  observedAtMs : Nat
  actor : NativeActor
  reason : String
deriving DecidableEq, Repr

/-- What the queue holds. -/
inductive Notification where
  | waf (event : WafEvent)
  | native (event : NativeLifecycle)
deriving DecidableEq, Repr

def Notification.droppable : Notification → Bool
  | .waf event => event.verdict.droppable
  | .native _ => false

def Notification.isNative : Notification → Bool
  | .waf _ => false
  | .native _ => true

def Notification.isDetection : Notification → Bool
  | .waf _ => false
  | .native event => event.kind == .detected

inductive AuditStatus where
  | queued
  | degraded
  | notApplicable
deriving DecidableEq, Repr

inductive Admission where
  | queued
  | evictedADetect
  | counted
  | dropped
deriving DecidableEq, Repr

def Admission.entered (a : Admission) : Bool := a == .queued || a == .evictedADetect

structure Counters where
  offered : Nat := 0
  queued : Nat := 0
  droppedDetect : Nat := 0
  evictedDetect : Nat := 0
  countedEnforced : Nat := 0
  droppedLifecycle : Nat := 0
  droppedNativeDetection : Nat := 0
  queuedLifecycle : Nat := 0
deriving DecidableEq, Repr

/-- The queue; `new` refuses a capacity of zero. -/
structure Queue where
  capacity : Nat
  queue : List Notification
  counters : Counters
  capacity_pos : 0 < capacity

namespace Queue

def new (capacity : Nat) : Option Queue :=
  if h : 0 < capacity then some ⟨capacity, [], {}, h⟩ else none

/-- Remove the first entry that `p` selects. -/
def removeFirst (p : Notification → Bool) : List Notification → List Notification
  | [] => []
  | e :: rest => if p e then rest else e :: removeFirst p rest

/-- Where an entry goes: the decision and the queue after it. -/
def place (q : Queue) (event : Notification) : Admission × List Notification :=
  if q.queue.length < q.capacity then (.queued, q.queue ++ [event])
  else if event.droppable then (.dropped, q.queue)
  else if q.queue.any Notification.droppable then
    (.evictedADetect, removeFirst Notification.droppable q.queue ++ [event])
  else (.counted, q.queue)

/-- The counters a native lifecycle record moves beside the common ones. -/
def countNative (event : Notification) (entered : Bool) (c : Counters) : Counters :=
  if !event.isNative then c
  else if entered then { c with queuedLifecycle := c.queuedLifecycle + 1 }
  else
    { c with
      droppedLifecycle := c.droppedLifecycle + 1
      droppedNativeDetection := c.droppedNativeDetection + if event.isDetection then 1 else 0 }

def countAdmission (event : Notification) (c : Counters) : Admission → Counters
  | .queued => { c with queued := c.queued + 1 }
  | .dropped => { c with droppedDetect := c.droppedDetect + 1 }
  | .evictedADetect => { c with evictedDetect := c.evictedDetect + 1, queued := c.queued + 1 }
  | .counted =>
    if event.isNative then c else { c with countedEnforced := c.countedEnforced + 1 }

def offerNotification (q : Queue) (event : Notification) : Admission × Queue :=
  let counters := { q.counters with offered := q.counters.offered + 1 }
  let (admission, queue) := q.place event
  (admission, { q with
    queue := queue
    counters := countAdmission event (countNative event admission.entered counters) admission })

def offer (q : Queue) (event : WafEvent) : Admission × Queue := q.offerNotification (.waf event)

def offerNative (q : Queue) (event : NativeLifecycle) : Admission × Queue :=
  q.offerNotification (.native event)

/-- The loop of `drain`: it takes the WAF events out, up to the limit, and passes over the rest. -/
def takeWaf : Nat → List Notification → List WafEvent × List Notification
  | 0, queue => ([], queue)
  | _, [] => ([], [])
  | limit + 1, .waf event :: rest =>
    let (events, queue) := takeWaf limit rest
    (event :: events, queue)
  | limit + 1, .native event :: rest =>
    let (events, queue) := takeWaf (limit + 1) rest
    (events, .native event :: queue)

def drain (q : Queue) (limit : Nat) : List WafEvent × Queue :=
  let (events, queue) := takeWaf limit q.queue
  (events, { q with queue := queue })

def drainNotifications (q : Queue) (limit : Nat) : List Notification × Queue :=
  let count := min limit q.queue.length
  (q.queue.take count, { q with queue := q.queue.drop count })

end Queue

/-! ## Runs -/

inductive Op where
  | offer (event : Notification)
  | drain (limit : Nat)
  | drainNotifications (limit : Nat)
deriving DecidableEq, Repr

inductive Answer where
  | admitted (event : Notification) (admission : Admission)
  | drained (events : List Notification)
deriving DecidableEq, Repr

def step (q : Queue) : Op → Answer × Queue
  | .offer event =>
    let (admission, q) := q.offerNotification event
    (.admitted event admission, q)
  | .drain limit =>
    let (events, q) := q.drain limit
    (.drained (events.map .waf), q)
  | .drainNotifications limit =>
    let (events, q) := q.drainNotifications limit
    (.drained events, q)

/-- The entries that came into the queue, in the order they did. -/
def entered (outs : List Answer) : List Notification :=
  outs.flatMap fun
    | .admitted event admission => if admission.entered then [event] else []
    | .drained _ => []

/-- The entries that were drained, in the order they were. -/
def drained (outs : List Answer) : List Notification :=
  outs.flatMap fun
    | .admitted _ _ => []
    | .drained events => events

end EventQueue
