import Pingap.KeyedMap
import Pingap.MachineArith
import Pingap.Text

/-!
# The domain-scoped store

`ScopedStore` keeps values under a domain and an identity. Each registered host
owns a slot with its own bucket, every other host shares the overflow bucket,
and expired entries stay in the maps until an operation reclaims them. One
operation is one lock hold, so it is a function of the store and of the clock
reading it was made at.
-/

namespace DomainStore

open MachineArith

abbrev Millis := Nat

/-- The slot every unregistered host shares. -/
def OVERFLOW : Nat := u32Max

/-- The label of the shared bucket. -/
def OVERFLOW_NAME : String := "<unregistered-host>"

/-- Which bound a write hit. -/
inductive Full where
  | domains
  | entries
deriving DecidableEq, Repr

structure Domain where
  slot : Nat
deriving DecidableEq, Repr

def Domain.isOverflow (d : Domain) : Bool := d.slot == OVERFLOW

def normalise (host : String) : String :=
  let trimmed := Text.trim host.toList
  let withoutPort :=
    if ']' ∈ trimmed then Text.upToLast ']' trimmed else Text.before ':' trimmed
  String.ofList (Text.toAsciiLowercase withoutPort)

/-- The registered hosts, in the order of their slots. Every slot handed out is
the position of some name, cut to 32 bits. -/
structure HostPolicy where
  names : List String
  index : KeyedMap String Nat
  slot_of_index : ∀ host slot, index.lookup host = some slot →
    ∃ i, i < names.length ∧ slot = i % 2 ^ 32

namespace HostPolicy

def empty : HostPolicy := ⟨[], ∅, by simp⟩

def register (p : HostPolicy) (host : String) : HostPolicy :=
  let key := normalise host
  if key.isEmpty || (p.index.lookup key).isSome then p
  else
    { names := p.names ++ [key]
      index := p.index.insert key (p.names.length % 2 ^ 32)
      slot_of_index := by
        intro name slot h
        rw [AList.lookup_insert_if] at h
        simp only [List.length_append, List.length_singleton]
        split at h
        · exact ⟨p.names.length, Nat.lt_succ_self _, (Option.some.inj h).symm⟩
        · obtain ⟨i, hi, hslot⟩ := p.slot_of_index name slot h
          exact ⟨i, Nat.lt_succ_of_lt hi, hslot⟩ }

def new (hosts : List String) : HostPolicy := hosts.foldl register empty

def classify (p : HostPolicy) (host : String) : Domain :=
  ⟨((p.index.lookup host).or (p.index.lookup (normalise host))).getD OVERFLOW⟩

def registered (p : HostPolicy) : Nat := p.names.length

def name (p : HostPolicy) (d : Domain) : String :=
  if d.isOverflow then OVERFLOW_NAME else (p.names[d.slot]?).getD OVERFLOW_NAME

/-- A host is classified to the overflow slot or to the slot of a registered name. -/
theorem classify_slot (p : HostPolicy) (host : String) :
    (p.classify host).slot = OVERFLOW ∨
      ∃ i, i < p.registered ∧ (p.classify host).slot = i % 2 ^ 32 := by
  unfold classify
  cases h : (p.index.lookup host).or (p.index.lookup (normalise host)) with
  | none => exact .inl rfl
  | some slot =>
    right
    rcases Option.or_eq_some_iff.mp h with h | ⟨-, h⟩
    all_goals exact p.slot_of_index _ _ h

end HostPolicy

structure Limits where
  maxDomains : Nat := 256
  maxEntriesPerDomain : Nat := 5000
deriving DecidableEq, Repr

structure Counters where
  overflowOps : Nat := 0
  domainSaturation : Nat := 0
  entrySaturation : Nat := 0
  expiredReclaimed : Nat := 0
deriving DecidableEq, Repr

structure Entry (υ : Type) where
  value : υ
  expiresAt : Millis
deriving DecidableEq, Repr

/-- `earliest` is a lower bound on the deadlines of the entries, never recomputed
by a removal. -/
structure Bucket (υ : Type) where
  entries : KeyedMap String (Entry υ)
  earliest : Option Millis

section reclaim

variable {υ : Type}

/-- Drop what is no longer live: an entry whose deadline equals the clock is gone. -/
def reclaim (entries : KeyedMap String (Entry υ)) (now : Millis) : KeyedMap String (Entry υ) :=
  entries.retain fun _ entry => if now < entry.expiresAt then some entry else none

/-- How many entries a reclaim removes. -/
def reclaimed (entries : KeyedMap String (Entry υ)) (now : Millis) : Nat :=
  entries.size - (reclaim entries now).size

def minExpiry (entries : KeyedMap String (Entry υ)) : Option Millis :=
  (entries.entries.map fun e => e.2.expiresAt).min?

end reclaim

namespace Bucket

variable {υ ρ : Type}

def empty : Bucket υ := ⟨∅, none⟩

/-- A reclaim that also brings the lower bound up to date. -/
def sweep (b : Bucket υ) (now : Millis) : Bucket υ :=
  ⟨reclaim b.entries now, minExpiry (reclaim b.entries now)⟩

def put (b : Bucket υ) (identity : String) (value : υ) (expiresAt : Millis) : Bucket υ where
  entries := b.entries.insert identity ⟨value, expiresAt⟩
  earliest := some (b.earliest.elim expiresAt fun earliest => min earliest expiresAt)

/-- The body of `insert` on an admitted bucket: the answer, the bucket and how
many expired entries were reclaimed on the way. -/
def insert (b : Bucket υ) (limits : Limits) (now : Millis) (identity : String) (value : υ)
    (expiresAt : Millis) : Except Full Unit × Bucket υ × Nat :=
  let refreshing := (b.entries.lookup identity).isSome
  let b := { b with entries := b.entries.erase identity }
  if !refreshing && decide (limits.maxEntriesPerDomain ≤ b.entries.size) then
    -- The scan is skipped when nothing in the bucket can have expired yet.
    let stale := b.earliest.all fun earliest => decide (earliest ≤ now)
    let count := if stale then reclaimed b.entries now else 0
    let b := if stale then b.sweep now else b
    if limits.maxEntriesPerDomain ≤ b.entries.size then (.error .entries, b, count)
    else (.ok (), b.put identity value expiresAt, count)
  else (.ok (), b.put identity value expiresAt, 0)

/-- What a read or an update finds under an identity. -/
inductive Found (υ : Type) where
  | absent
  | expired
  | live (value : υ)

def find (b : Bucket υ) (now : Millis) (identity : String) : Found υ :=
  match b.entries.lookup identity with
  | none => .absent
  | some entry => if now < entry.expiresAt then .live entry.value else .expired

def change (b : Bucket υ) (identity : String) (value : υ) : Bucket υ :=
  { b with entries := b.entries.modify identity fun entry => { entry with value := value } }

end Bucket

structure Inner (υ : Type) where
  domains : KeyedMap Nat (Bucket υ)
  overflow : Bucket υ

structure ScopedStore (υ : Type) where
  hosts : HostPolicy
  limits : Limits
  counters : Counters
  inner : Inner υ

namespace ScopedStore

variable {υ ρ : Type}

def new (hosts : HostPolicy) (limits : Limits) : ScopedStore υ :=
  ⟨hosts, limits, {}, ⟨∅, Bucket.empty⟩⟩

def noteOverflow (s : ScopedStore υ) (d : Domain) : ScopedStore υ :=
  if d.isOverflow then
    { s with counters := { s.counters with overflowOps := s.counters.overflowOps + 1 } }
  else s

def bumpReclaimed (s : ScopedStore υ) (count : Nat) : ScopedStore υ :=
  { s with counters := { s.counters with expiredReclaimed := s.counters.expiredReclaimed + count } }

def bumpDomainSaturation (s : ScopedStore υ) : ScopedStore υ :=
  { s with counters := { s.counters with domainSaturation := s.counters.domainSaturation + 1 } }

def bumpEntrySaturation (s : ScopedStore υ) : ScopedStore υ :=
  { s with counters := { s.counters with entrySaturation := s.counters.entrySaturation + 1 } }

def peek (s : ScopedStore υ) (d : Domain) : Option (Bucket υ) :=
  if d.isOverflow then some s.inner.overflow else s.inner.domains.lookup d.slot

def write (s : ScopedStore υ) (d : Domain) (b : Bucket υ) : ScopedStore υ :=
  if d.isOverflow then { s with inner := { s.inner with overflow := b } }
  else { s with inner := { s.inner with domains := s.inner.domains.insert d.slot b } }

/-- The bucket an insertion goes to, made on first use while the cap allows it. -/
def admitBucket (s : ScopedStore υ) (d : Domain) : Except Full (Bucket υ) × ScopedStore υ :=
  if d.isOverflow then (.ok s.inner.overflow, s)
  else
    match s.inner.domains.lookup d.slot with
    | some b => (.ok b, s)
    | none =>
      if s.limits.maxDomains ≤ s.inner.domains.size then
        (.error .domains, s.bumpDomainSaturation)
      else (.ok Bucket.empty, s.write d Bucket.empty)

def dropIfEmpty (s : ScopedStore υ) (d : Domain) : ScopedStore υ :=
  if d.isOverflow then s
  else
    match s.inner.domains.lookup d.slot with
    | some b =>
      if b.entries.size = 0 then
        { s with inner := { s.inner with domains := s.inner.domains.erase d.slot } }
      else s
    | none => s

def insert (s : ScopedStore υ) (now : Millis) (d : Domain) (identity : String) (value : υ)
    (ttl : Duration) : Except Full Unit × ScopedStore υ :=
  let s := s.noteOverflow d
  let expiresAt := satAdd64 now (durationMs ttl)
  match s.admitBucket d with
  | (.error full, s) => (.error full, s)
  | (.ok bucket, s) =>
    match bucket.insert s.limits now identity value expiresAt with
    | (.error full, bucket, count) =>
      (.error full, ((s.write d bucket).bumpReclaimed count).bumpEntrySaturation)
    | (.ok (), bucket, count) => (.ok (), (s.write d bucket).bumpReclaimed count)

/-- The common body of `with`, `update` and `contains`: a live value is handed to
`change`, an expired one makes the whole bucket be swept. -/
def touch (s : ScopedStore υ) (now : Millis) (d : Domain) (identity : String)
    (change : υ → υ × ρ) : Option ρ × ScopedStore υ :=
  let s := s.noteOverflow d
  match s.peek d with
  | none => (none, s)
  | some bucket =>
    match bucket.find now identity with
    | .absent => (none, s)
    | .live value => (some (change value).2, s.write d (bucket.change identity (change value).1))
    | .expired =>
      (none, ((s.write d (bucket.sweep now)).bumpReclaimed
        (reclaimed bucket.entries now)).dropIfEmpty d)

def withValue (s : ScopedStore υ) (now : Millis) (d : Domain) (identity : String)
    (read : υ → ρ) : Option ρ × ScopedStore υ :=
  s.touch now d identity fun value => (value, read value)

def get (s : ScopedStore υ) (now : Millis) (d : Domain) (identity : String) :
    Option υ × ScopedStore υ :=
  s.withValue now d identity id

def update (s : ScopedStore υ) (now : Millis) (d : Domain) (identity : String)
    (change : υ → υ × ρ) : Option ρ × ScopedStore υ :=
  s.touch now d identity change

def contains (s : ScopedStore υ) (now : Millis) (d : Domain) (identity : String) :
    Bool × ScopedStore υ :=
  let (found, s) := s.touch now d identity fun value => (value, ())
  (found.isSome, s)

def remove (s : ScopedStore υ) (now : Millis) (d : Domain) (identity : String) :
    Option υ × ScopedStore υ :=
  let s := s.noteOverflow d
  match s.peek d with
  | none => (none, s)
  | some bucket =>
    let rest := { bucket with entries := bucket.entries.erase identity }
    match bucket.find now identity with
    | .live value => (some value, (s.write d rest).dropIfEmpty d)
    | .expired => (none, ((s.write d rest).bumpReclaimed 1).dropIfEmpty d)
    | .absent => (none, (s.write d rest).dropIfEmpty d)

def entries (s : ScopedStore υ) (now : Millis) (d : Domain) : Nat × ScopedStore υ :=
  let s := s.noteOverflow d
  match s.peek d with
  | none => (0, s)
  | some bucket =>
    let live := reclaim bucket.entries now
    (live.size, ((s.write d { bucket with entries := live }).bumpReclaimed
      (reclaimed bucket.entries now)).dropIfEmpty d)

def domainsLive (s : ScopedStore υ) : Nat := s.inner.domains.size

/-- Every entry of a bucket has reached its deadline. -/
def allExpired (b : Bucket υ) (now : Millis) : Bool :=
  b.entries.entries.all fun e => decide (e.2.expiresAt ≤ now)

def totalEntries (s : ScopedStore υ) (now : Millis) : Nat × ScopedStore υ :=
  let overflow := s.inner.overflow.sweep now
  let domains := s.inner.domains.retain fun _ bucket =>
    if allExpired bucket now then none else some (bucket.sweep now)
  let total := overflow.entries.size + (domains.entries.map fun e => e.2.entries.size).sum
  let before := s.inner.overflow.entries.size +
    (s.inner.domains.entries.map fun e => e.2.entries.size).sum
  (total, { s with inner := ⟨domains, overflow⟩ }.bumpReclaimed (before - total))

def visit (s : ScopedStore υ) (now : Millis) (d : Domain) : List (String × υ) :=
  match s.peek d with
  | none => []
  | some bucket => (reclaim bucket.entries now).entries.map fun e => (e.1, e.2.value)

/-- Keep the live entries that `keep` answers with a value, under that value. -/
def retain (s : ScopedStore υ) (now : Millis) (d : Domain) (keep : String → υ → Option υ) :
    ScopedStore υ :=
  match s.peek d with
  | none => s.dropIfEmpty d
  | some bucket =>
    let entries := bucket.entries.retain fun key entry =>
      if now < entry.expiresAt then
        (keep key entry.value).map fun value => { entry with value := value }
      else none
    (s.write d ⟨entries, minExpiry entries⟩).dropIfEmpty d

end ScopedStore

end DomainStore
