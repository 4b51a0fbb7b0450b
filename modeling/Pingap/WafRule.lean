import Pingap.IpText
import Pingap.Utf8

/-!
# Rules of the web application firewall

What a rule is, what it may look at, and the two kinds of pattern rules the
firewall has: the native detectors and the operator's own. The regular expression
library is given by its `find`, the percent-decoder by `urlDecode`.
-/

namespace WafRule

open Utf8 (Bytes)

inductive Category where
  | protocolEnforcement
  | localFileInclusion
  | remoteCodeExecution
  | php
  | generic
  | xss
  | sqlInjection
  | sessionFixation
  | dataLeakage
  | webShell
deriving DecidableEq, Repr

/-- The categories that look at the response. -/
def Category.isResponseSide : Category → Bool
  | .dataLeakage => true
  | .webShell => true
  | _ => false

inductive Severity where
  | notice
  | warning
  | error
  | critical
deriving DecidableEq, Repr

def Severity.defaultScore : Severity → Nat
  | .notice => 2
  | .warning => 3
  | .error => 4
  | .critical => 5

structure Paranoia where
  level : Nat
  range : 1 ≤ level ∧ level ≤ 4 := by decide
deriving DecidableEq, Repr

def Paranoia.one : Paranoia := { level := 1 }

inductive RawMode where
  | off
  | detect
  | block
  | challenge
  | redact
deriving DecidableEq, Repr

inductive MatchedField where
  | method
  | uri
  | query (key : String)
  | header (name : String)
  | cookie (name : String)
  | body (offset len : Nat)
  | status
  | responseHeader (name : String)
  | responseBody (offset len : Nat)
deriving DecidableEq, Repr

structure Hit where
  ruleId : Nat
  category : Category
  severity : Severity
  score : Nat
  matchedField : MatchedField
deriving DecidableEq, Repr

/-- One request, as far as a rule may look at it. -/
structure RequestInput where
  method : String := ""
  uri : String := ""
  headers : List (String × String) := []
  query : List (String × String) := []
  body : Option Bytes := none
  clientIp : Option IpText.IpAddr := none
  bodyTruncated : Bool := false

/-- One response, as far as a rule may look at it. -/
structure ResponseInput where
  status : Nat := 0
  headers : List (String × String) := []
  bodyChunk : Option Bytes := none
  requestScore : Nat := 0
  bodyTruncated : Bool := false

/-- A rule over one kind of input. -/
structure Rule (ι : Type) where
  id : Nat
  category : Category
  severity : Severity
  paranoia : Paranoia
  actionOverride : Option RawMode
  requiredLiterals : Option (List String)
  evaluate : ι → Option Hit

/-! ## The forms of a field -/

/-- What the percent-decoder answers: the text as it was, another text, or an
error because the decoded bytes are no text. -/
inductive Decoded where
  | borrowed
  | owned (text : String)
  | failed
deriving DecidableEq, Repr

section forms

variable (urlDecode : String → Decoded)

/-- The reading of a form field: a plus is a space, then percent-decoding. -/
def formDecoded (value : String) : String :=
  let spaced := String.ofList (value.toList.map fun c => if c = '+' then ' ' else c)
  match urlDecode spaced with
  | .owned decoded => decoded
  | .borrowed => spaced
  | .failed => spaced

/-- The forms of a value in the order `each_form` visits them. -/
def forms (value : String) : List String :=
  value :: (match urlDecode value with
    | .owned decoded => [decoded]
    | _ => []) ++ if value.toList.contains '+' then [formDecoded urlDecode value] else []

structure Span where
  start : Nat
  stop : Nat
deriving DecidableEq, Repr

def Span.len (s : Span) : Nat := s.stop - s.start

/-- The first match among the forms of a value. -/
def findBothForms (find : String → Option Span) (value : String) : Option Span :=
  (forms urlDecode value).findSome? find

/-- `find_in_request`: method, URI, query values, headers, then the body. -/
def findInRequest (input : RequestInput) (inspectHeader : String → Bool)
    (find : String → Option Span) : Option MatchedField :=
  if (findBothForms urlDecode find input.method).isSome then some .method
  else if (findBothForms urlDecode find input.uri).isSome then some .uri
  else
    match input.query.find? fun q => (findBothForms urlDecode find q.2).isSome with
    | some q => some (.query q.1)
    | none =>
      match input.headers.find? fun h =>
          inspectHeader h.1 && (findBothForms urlDecode find h.2).isSome with
      | some h => some (.header h.1)
      | none => input.body.bind fun body =>
        (findBothForms urlDecode find (Utf8.textStart body)).map fun span =>
          .body span.start span.len

end forms

/-- `find_in_response`: headers, then the body, as they are. -/
def findInResponse (input : ResponseInput) (inspectHeader : String → Bool)
    (find : String → Option Span) : Option MatchedField :=
  match input.headers.find? fun h => inspectHeader h.1 && (find h.2).isSome with
  | some h => some (.responseHeader h.1)
  | none => input.bodyChunk.bind fun body =>
    (find (Utf8.textStart body)).map fun span => .responseBody span.start span.len

/-! ## Pattern rules -/

/-- The headers no detector looks at: none. -/
def NEVER_INSPECTED : List String := []

def inspectHeader (name : String) : Bool :=
  !NEVER_INSPECTED.any fun skip => Text.eqIgnoreAsciiCase skip name

def everyHeader (_name : String) : Bool := true

inductive Scope where
  | anyField
  | header (name : String)
deriving DecidableEq, Repr

/-- A compiled pattern with what a hit of it reports. -/
structure Pattern where
  id : Nat
  category : Category
  severity : Severity
  paranoia : Paranoia
  needles : Option (List String)
  findAt : String → Option Span

namespace Pattern

def hit (p : Pattern) (field : MatchedField) : Hit :=
  ⟨p.id, p.category, p.severity, p.severity.defaultScore, field⟩

/-- A rule that reports a hit of the pattern in the field `find` names. -/
def rule {ι : Type} (p : Pattern) (action : Option RawMode) (find : ι → Option MatchedField) :
    Rule ι where
  id := p.id
  category := p.category
  severity := p.severity
  paranoia := p.paranoia
  actionOverride := action
  requiredLiterals := p.needles
  evaluate := fun input => (find input).map p.hit

/-- The first header of a name, when the pattern matches in its value. -/
def findInHeader (p : Pattern) (want : String) (input : RequestInput) : Option MatchedField :=
  (input.headers.find? fun h => Text.eqIgnoreAsciiCase h.1 want).bind fun h =>
    (p.findAt h.2).map fun _ => .header h.1

def requestRule (urlDecode : String → Decoded) (scope : Scope) (p : Pattern) : Rule RequestInput :=
  p.rule none fun input =>
    match scope with
    | .anyField => findInRequest urlDecode input inspectHeader p.findAt
    | .header want => p.findInHeader want input

def responseRule (p : Pattern) : Rule ResponseInput :=
  p.rule none fun input => findInResponse input inspectHeader p.findAt

def customResponseRule (action : Option RawMode) (p : Pattern) : Rule ResponseInput :=
  p.rule action fun input => findInResponse input everyHeader p.findAt

end Pattern

/-- A pattern that is its one literal. -/
def literalPattern (id : Nat) (category : Category) (literal : String) : Pattern where
  id := id
  category := category
  severity := .critical
  paranoia := .one
  needles := some [literal]
  findAt text := (Text.position literal text).map fun start =>
    ⟨start, start + literal.utf8ByteSize⟩

end WafRule
