import Pingap.Ja4h

/-!
# Fingerprint rules

A rule of a bot profile names a fingerprint, whole or cut after some of its hashes, a
pattern for the user agent, or both. What a request computes is accepted as a rule's
fingerprint when it is legible; what is accepted need not match anything a request
computes.
-/

namespace BotFingerprint

open Ja4h List

inductive FingerprintType where
  | ja4h
deriving DecidableEq, Repr

inductive BotAction where
  | allow
  | deny
  | log
deriving DecidableEq, Repr

inductive RuleError where
  | nothingToMatch (index : Nat)
  | badUserAgent (index : Nat) (reason : String)
  | fingerprintTypeMissing (index : Nat)
  | notAJa4h (index : Nat) (value : String)
deriving DecidableEq, Repr

structure BotRule where
  fingerprintType : Option FingerprintType := none
  fingerprint : Option String := none
  userAgent : Option String := none
  action : BotAction
  enabled : Bool := true
  remark : Option String := none
deriving DecidableEq, Repr

/-- A rule that passed validation, with its compiled pattern. -/
structure ValidatedBotRule where
  spec : BotRule
  pattern : Option (String → Bool)

namespace ValidatedBotRule

def compilePattern (regex : String → Except String (String → Bool)) (index : Nat) :
    Option String → Except RuleError (Option (String → Bool))
  | none => .ok none
  | some source => ((regex source).mapError (RuleError.badUserAgent index)).map some

def new (regex : String → Except String (String → Bool)) (spec : BotRule) (index : Nat) :
    Except RuleError ValidatedBotRule := do
  if spec.fingerprint.isNone ∧ spec.userAgent.isNone then
    throw (.nothingToMatch index)
  match spec.fingerprint with
  | none => pure ()
  | some value =>
    if spec.fingerprintType.isNone then
      throw (.fingerprintTypeMissing index)
    if looksLikeJa4h value = false then
      throw (.notAJa4h index value)
  let pattern ← compilePattern regex index spec.userAgent
  return ⟨spec, pattern⟩

/-- The configured fingerprint is the computed one, or its start up to an underscore. -/
def fingerprintHit (wanted actual : String) : Bool :=
  actual == wanted || match Text.stripStart wanted.toList actual.toList with
    | none => false
    | some rest => rest.head? == some '_'

def isMatch (rule : ValidatedBotRule) (fingerprint : Option String) (userAgent : String) : Bool :=
  if rule.spec.enabled = false then false
  else
    (match rule.spec.fingerprint with
      | none => true
      | some wanted =>
        match fingerprint with
        | none => false
        | some actual => fingerprintHit wanted actual) &&
    match rule.pattern with
    | none => true
    | some pattern => pattern userAgent

end ValidatedBotRule

end BotFingerprint
