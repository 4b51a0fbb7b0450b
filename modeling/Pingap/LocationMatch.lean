import Pingap.ConfigReadBack

/-!
# Locations and the requests they match

A location restricts the path and the hosts of the requests it serves. Both are
patterns of the configuration: an exact text, a start of the path or a `*.` wildcard
of hosts, or a regular expression. Conditions on headers, the query and cookies are
not part of the model.
-/

namespace LocationMatch

open ConfigIntent ConfigReadBack

/-- The regular expression library: what it says of a pattern that does not compile,
and whether one that does matches a text. -/
structure Regexes where
  compileError : String → Option String
  isMatch : String → String → Bool

inductive LocationError where
  | invalid (message : String)
  | regex (value source : String)
deriving DecidableEq, Repr

def LocationError.display : LocationError → String
  | .invalid message => "Invalid error " ++ message
  | .regex value source => "Regex value: " ++ value ++ ", " ++ source

def trim (text : String) : String := String.ofList (Text.trim text.toList)

def toAsciiLowercase (text : String) : String := String.ofList (Text.toAsciiLowercase text.toList)

/-- What follows a start of the text. -/
def stripStart (start text : String) : Option String :=
  (Text.stripStart start.toList text.toList).map String.ofList

def newRegex (r : Regexes) (pattern : String) : Except LocationError String :=
  match r.compileError pattern with
  | some source => .error (.regex pattern source)
  | none => .ok pattern

/-! ## Paths -/

inductive PathSelector where
  | regex (pattern : String)
  | startsWith (path : String)
  | equal (path : String)
  | any
deriving DecidableEq, Repr

def PathSelector.new (r : Regexes) (path : String) : Except LocationError PathSelector :=
  let path := trim path
  if path.isEmpty then .ok .any
  else
    match stripStart "~" path, stripStart "=" path with
    | some pattern, _ => (newRegex r (trim pattern)).map .regex
    | none, some path => .ok (.equal (trim path))
    | none, none => .ok (.startsWith path)

def PathSelector.isMatch (r : Regexes) (path : String) : PathSelector → Bool
  | .equal value => value == path
  | .regex pattern => r.isMatch pattern path
  | .startsWith value => value.toList.isPrefixOf path.toList
  | .any => true

/-! ## Hosts -/

inductive HostSelector where
  | regex (pattern : String)
  | equal (host : String)
  | suffix (domain : String)
deriving DecidableEq, Repr

def HostSelector.new (r : Regexes) (host : String) : Except LocationError HostSelector :=
  let host := trim host
  match stripStart "~" host, stripStart "*." host with
  | some pattern, _ => (newRegex r (trim pattern)).map .regex
  | none, some domain =>
    let domain := trim domain
    if domain.isEmpty || domain.toList.contains '*' then
      .error (.invalid ("invalid host wildcard pattern: " ++ host))
    else .ok (.suffix (toAsciiLowercase domain))
  | none, none => .ok (.equal (toAsciiLowercase host))

/-- The host is a subdomain, and not the domain itself. -/
def hostMatchesSuffix (host domain : String) : Bool :=
  ('.' :: domain.toList).isSuffixOf host.toList && domain.toList.length + 1 < host.toList.length

def HostSelector.isMatch (r : Regexes) (host : String) : HostSelector → Bool
  | .equal value => value == toAsciiLowercase host
  | .suffix domain => hostMatchesSuffix (toAsciiLowercase host) domain
  | .regex pattern => r.isMatch pattern host

/-! ## Locations -/

structure Location where
  name : String
  key : String
  path : String
  pathSelector : PathSelector
  hosts : List HostSelector
deriving DecidableEq, Repr

/-- The host patterns of a configuration, separated by commas. -/
def hostPatterns (conf : LocationConf) : List String :=
  (((conf.host.getD "").toList.splitOn ',').map fun part => String.ofList (Text.trim part)).filter
    fun host => !host.isEmpty

def Location.new (r : Regexes) (h : Hashes) (name : String) (conf : LocationConf) :
    Except LocationError Location := do
  if name.isEmpty then throw (.invalid "Name is required")
  let hosts ← (hostPatterns conf).mapM (HostSelector.new r)
  let path := conf.path.getD ""
  let pathSelector ← PathSelector.new r path
  return ⟨name, hashKey h conf, path, pathSelector, hosts⟩

/-- What is known of a location that was built. -/
structure Location.Built (r : Regexes) (h : Hashes) (name : String) (conf : LocationConf)
    (l : Location) : Prop where
  name : name.isEmpty = false
  key : l.key = hashKey h conf
  hosts : (hostPatterns conf).mapM (HostSelector.new r) = .ok l.hosts

theorem Location.new_ok {name : String} (hok : Location.new r h name conf = .ok l) :
    l.Built r h name conf := by
  rw [Location.new] at hok
  cases hname : name.isEmpty with
  | true =>
    rw [hname] at hok
    cases hok
  | false =>
    rw [hname] at hok
    cases hhosts : (hostPatterns conf).mapM (HostSelector.new r) with
    | error e =>
      simp only [hhosts] at hok
      cases hok
    | ok hosts =>
      cases hpath : PathSelector.new r (conf.path.getD "") with
      | error e =>
        simp only [hhosts, hpath] at hok
        cases hok
      | ok selector =>
        simp only [hhosts, hpath] at hok
        cases hok
        exact ⟨hname, rfl, hhosts⟩

/-- An exact pattern is compared with the lower case of its text. -/
theorem HostSelector.new_equal (hok : HostSelector.new r host = .ok (.equal value)) :
    value = toAsciiLowercase (trim host) := by
  simp only [HostSelector.new] at hok
  split at hok
  · cases hregex : newRegex r (trim _) with
    | error | ok =>
      rw [hregex] at hok
      cases hok
  · split at hok
    · cases hok
    · cases hok
  · exact (HostSelector.equal.inj (Except.ok.inj hok)).symm

namespace Location

def matchPath (r : Regexes) (l : Location) (path : String) : Bool :=
  l.path.isEmpty || l.pathSelector.isMatch r path

def matchHost (r : Regexes) (l : Location) (host : String) : Bool :=
  l.hosts.isEmpty || l.hosts.any (HostSelector.isMatch r host)

def matchHostPath (r : Regexes) (l : Location) (host path : String) : Bool :=
  l.matchPath r path && l.matchHost r host

end Location

/-- Where a host pattern stands in the routing index. -/
inductive HostIndexEntry where
  | exact (host : String)
  | suffix (domain : String)
  | regex
  | any
deriving DecidableEq, Repr

def HostSelector.indexEntry : HostSelector → HostIndexEntry
  | .equal value => .exact value
  | .suffix domain => .suffix domain
  | .regex _ => .regex

def Location.hostIndexEntries (l : Location) : List HostIndexEntry :=
  if l.hosts.isEmpty then [.any] else l.hosts.map HostSelector.indexEntry

/-- The index offers entries of this kind for the host. -/
def HostIndexEntry.admits (host : String) : HostIndexEntry → Bool
  | .exact value => value == toAsciiLowercase host
  | .suffix domain => hostMatchesSuffix (toAsciiLowercase host) domain
  | .regex => true
  | .any => true

/-- The index offers the location for the host. -/
def Location.admits (l : Location) (host : String) : Bool :=
  l.hostIndexEntries.any (HostIndexEntry.admits host)

/-- A location that matches a host is offered for it. -/
theorem Location.admits_of_matchHost {l : Location} (h : l.matchHost r host = true) :
    l.admits host = true := by
  rw [matchHost] at h
  rw [admits, hostIndexEntries]
  cases hempty : l.hosts.isEmpty with
  | true => rfl
  | false =>
    rw [hempty, Bool.false_or, List.any_eq_true] at h
    obtain ⟨selector, hmem, hmatch⟩ := h
    simp only [Bool.false_eq_true, if_false, List.any_map, List.any_eq_true]
    refine ⟨selector, hmem, ?_⟩
    cases selector with
    | regex pattern => rfl
    | equal | suffix => exact hmatch

end LocationMatch
