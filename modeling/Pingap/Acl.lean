import Mathlib.Data.List.Find
import Pingap.StableSort
import Pingap.Text

/-!
# Access control

The rule table of one entry: rules as written are checked and compiled, sorted by
their order with the written position breaking ties, and walked from the top until
one that ends the walk matches. A rule that only logs, or is disabled, is walked
past.
-/

namespace Acl

open List Text

/-! ## Rules -/

inductive Field where
  | ip
  | geoCountry
  | userAgent
  | referer
  | method
  | header
deriving DecidableEq, Repr

inductive Operator where
  | equals
  | contains
  | regex
  | inCidr
  | inList
deriving DecidableEq, Repr

inductive Action where
  | allow
  | deny
  | challenge
  | log
deriving DecidableEq, Repr

namespace Field

def key : Field → String
  | .ip => "ip"
  | .geoCountry => "geo_country"
  | .userAgent => "user_agent"
  | .referer => "referer"
  | .method => "method"
  | .header => "header"

/-- What the field can be tested with. -/
def operators : Field → List Operator
  | .ip => [.inCidr, .equals, .inList]
  | .geoCountry | .method => [.equals, .inList]
  | .userAgent | .referer | .header => [.equals, .contains, .regex, .inList]

end Field

def Operator.key : Operator → String
  | .equals => "equals"
  | .contains => "contains"
  | .regex => "regex"
  | .inCidr => "in_cidr"
  | .inList => "in_list"

def Action.isTerminal : Action → Bool
  | .allow | .deny | .challenge => true
  | .log => false

structure AclRule where
  field : Field
  operator : Operator
  values : List String := []
  header : Option String := none
  action : Action
  order : Int := 0
  enabled : Bool := true
deriving DecidableEq, Repr

inductive RuleError where
  | operatorNotOnField (index : Nat) (field operator available : String)
  | noValues (index : Nat)
  | equalsWantsOneValue (index count : Nat)
  | headerNotNamed (index : Nat)
  | headerOnOtherField (index : Nat) (field header : String)
  | badRegex (index : Nat) (reason : String)
  | badCidr (index : Nat) (value : String)
  | geoUnavailable (index : Nat)
deriving DecidableEq, Repr

/-- Parsed addresses and ranges: how many, and whether an address is among them, when
it is one. -/
structure IpRules where
  len : Nat
  isMatch : String → Option Bool

/-- What the rules take from other crates and from the build. -/
structure Build where
  regex : String → Except String (String → Bool)
  ipRules : List String → IpRules
  toLowercase : String → String
  geo : Bool
  lookupCountryCode : String → String

namespace Build

/-- `country_of`: without the database, no country. -/
def countryOf (build : Build) (ip : String) : String :=
  if build.geo then build.lookupCountryCode ip else ""

end Build

/-- A rule that passed validation, with what it compiled to. -/
structure ValidatedRule where
  spec : AclRule
  patterns : List (String → Bool)
  cidrs : Option IpRules
  folded : List String

namespace ValidatedRule

variable (build : Build)

def compilePatterns (index : Nat) (spec : AclRule) : Except RuleError (List (String → Bool)) :=
  if spec.operator = .regex then
    spec.values.mapM fun value => (build.regex value).mapError (RuleError.badRegex index)
  else .ok []

/-- Ranges that do not parse are dropped, so that their number tells. -/
def compileCidrs (index : Nat) (spec : AclRule) : Except RuleError (Option IpRules) :=
  if spec.operator = .inCidr then
    let rules := build.ipRules spec.values
    if rules.len ≠ spec.values.length then
      .error (.badCidr index
        ((spec.values.find? fun v => (build.ipRules [v]).len == 0).getD ""))
    else .ok (some rules)
  else .ok none

def new (spec : AclRule) (index : Nat) : Except RuleError ValidatedRule := do
  if spec.operator ∉ spec.field.operators then
    throw (.operatorNotOnField index spec.field.key spec.operator.key
      (", ".intercalate (spec.field.operators.map Operator.key)))
  if spec.values.isEmpty then
    throw (.noValues index)
  if spec.operator = .equals ∧ spec.values.length ≠ 1 then
    throw (.equalsWantsOneValue index spec.values.length)
  match spec.field, spec.header with
  | .header, none => throw (.headerNotNamed index)
  | .header, some _ | _, none => pure ()
  | other, some header => throw (.headerOnOtherField index other.key header)
  if spec.field = .geoCountry ∧ build.geo = false then
    throw (.geoUnavailable index)
  let patterns ← compilePatterns build index spec
  let cidrs ← compileCidrs build index spec
  return ⟨spec, patterns, cidrs, spec.values.map build.toLowercase⟩

def action (rule : ValidatedRule) : Action := rule.spec.action

def isMatch (rule : ValidatedRule) (value : String) : Bool :=
  if rule.spec.enabled = false then false
  else
    match rule.spec.operator with
    | .inCidr => ((rule.cidrs.bind fun rules => rules.isMatch value)).getD false
    | .regex => rule.patterns.any fun re => re value
    | .contains =>
      rule.folded.any fun v => Text.occursIn v.toList (build.toLowercase value).toList
    | .equals | .inList => rule.folded.contains (build.toLowercase value)

end ValidatedRule

/-- The rules of an entry, each checked under its written position. -/
def validateRules (build : Build) (specs : List AclRule) : Except RuleError (List ValidatedRule) :=
  specs.zipIdx.mapM fun entry => ValidatedRule.new build entry.1 entry.2

/-! ## The walk -/

inductive DefaultAction where
  | allow
  | deny
  | challenge
deriving DecidableEq, Repr

structure RequestFacts where
  clientIp : String
  method : String
  headers : List (String × String)
deriving DecidableEq, Repr

/-- The first header of a name, or the empty text. -/
def RequestFacts.header (facts : RequestFacts) (name : String) : String :=
  ((facts.headers.find? fun h => Text.eqIgnoreAsciiCase h.1 name).map Prod.snd).getD ""

structure Outcome where
  allowed : Bool
  action : Option Action
  challenged : Bool
  decidedBy : Option Nat
  logged : List Nat
deriving DecidableEq, Repr

/-- A rule table in the order it is walked. -/
structure RuleSet where
  rules : List ValidatedRule
  defaultAction : DefaultAction
  sorted : rules.Pairwise fun a b => a.spec.order ≤ b.spec.order

/-- `RuleSet::new`: a stable sort by `order`. -/
def RuleSet.new (rules : List ValidatedRule) (defaultAction : DefaultAction) : RuleSet where
  rules := StableSort.sortByKey (fun r => r.spec.order) rules
  defaultAction := defaultAction
  sorted := StableSort.pairwise_sortByKey _ rules

section evaluate

variable (build : Build) (facts : RequestFacts)

/-- The value a rule tests, and the country once it was looked up. -/
def fieldValue (rule : ValidatedRule) (country : Option String) : String × Option String :=
  match rule.spec.field with
  | .ip => (facts.clientIp, country)
  | .method => (facts.method, country)
  | .userAgent => (facts.header "user-agent", country)
  | .referer => (facts.header "referer", country)
  | .header => ((rule.spec.header.map facts.header).getD "", country)
  | .geoCountry =>
    let found := country.getD (build.countryOf facts.clientIp)
    (found, some found)

/-- The loop of `evaluate`, from a position on. -/
def walk (defaultAction : DefaultAction) :
    List ValidatedRule → Nat → Option String → List Nat → Outcome
  | [], _, _, logged =>
    let action : Action :=
      match defaultAction with
      | .allow => .allow
      | .deny => .deny
      | .challenge => .challenge
    { allowed := action == .allow
      action := some action
      challenged := action == .challenge
      decidedBy := none
      logged := logged }
  | rule :: rest, index, country, logged =>
    let (value, country) := fieldValue build facts rule country
    if !rule.isMatch build value then walk defaultAction rest (index + 1) country logged
    else
      match rule.action with
      | .log => walk defaultAction rest (index + 1) country (logged ++ [index])
      | .allow =>
        { allowed := true, action := some .allow, challenged := false, decidedBy := some index
          logged := logged }
      | .deny =>
        { allowed := false, action := some .deny, challenged := false, decidedBy := some index
          logged := logged }
      | .challenge =>
        { allowed := false, action := some .challenge, challenged := true
          decidedBy := some index, logged := logged }

def RuleSet.evaluate (rules : RuleSet) : Outcome :=
  walk build facts rules.defaultAction rules.rules 0 none []

end evaluate

/-! ## First match -/

/-- What a request is told, whatever was logged on the way. -/
structure Decision where
  allowed : Bool
  action : Option Action
  challenged : Bool
deriving DecidableEq, Repr

def Outcome.decision (o : Outcome) : Decision := ⟨o.allowed, o.action, o.challenged⟩

/-- Only an allowing action lets the request through. -/
def Action.decision (a : Action) : Decision := ⟨a == .allow, some a, a == .challenge⟩

def DefaultAction.action : DefaultAction → Action
  | .allow => .allow
  | .deny => .deny
  | .challenge => .challenge

/-- The rule that decided, by its place in the table. -/
def RuleSet.decidingRule (rules : RuleSet) (o : Outcome) : Option ValidatedRule :=
  o.decidedBy.bind fun index => rules.rules[index]?

/-- The rule can end a walk at all. -/
def counts (rule : ValidatedRule) : Bool := rule.spec.enabled && rule.action.isTerminal

section firstMatch

variable (build : Build) (facts : RequestFacts)

def decides (rule : ValidatedRule) : Bool :=
  rule.isMatch build (fieldValue build facts rule none).1 && rule.action.isTerminal

theorem counts_of_decides (h : decides build facts rule = true) : counts rule = true := by
  obtain ⟨hmatch, hterminal⟩ := Bool.and_eq_true_iff.mp h
  unfold ValidatedRule.isMatch at hmatch
  split at hmatch
  · cases hmatch
  case isFalse henabled =>
    exact Bool.and_eq_true_iff.mpr ⟨by simpa using henabled, hterminal⟩

/-- The country kept between rules is that of the client. -/
def CountryKept (country : Option String) : Prop :=
  ∀ found, country = some found → found = build.countryOf facts.clientIp

theorem fieldValue_kept (h : CountryKept build facts country) (rule : ValidatedRule) :
    (fieldValue build facts rule country).1 = (fieldValue build facts rule none).1 ∧
      CountryKept build facts (fieldValue build facts rule country).2 := by
  unfold fieldValue
  cases rule.spec.field with
  | geoCountry =>
    have hfound : country.getD (build.countryOf facts.clientIp) =
        build.countryOf facts.clientIp := by
      cases country with
      | none => rfl
      | some found => exact h found rfl
    refine ⟨hfound, fun found hsome => ?_⟩
    rw [← Option.some.inj hsome]
    exact hfound
  | _ => exact ⟨rfl, h⟩

/-- The walk ends at the first rule that decides, and with the default without one. -/
theorem walk_spec (defaultAction : DefaultAction) (rules : List ValidatedRule) (index : Nat)
    (h : CountryKept build facts country) (logged : List Nat) :
    (walk build facts defaultAction rules index country logged).decision =
        (((rules.find? (decides build facts)).map ValidatedRule.action).getD
          defaultAction.action).decision ∧
      (walk build facts defaultAction rules index country logged).decidedBy =
        (rules.findIdx? (decides build facts)).map (· + index) := by
  induction rules generalizing index country logged with
  | nil => cases defaultAction <;> exact ⟨rfl, rfl⟩
  | cons rule rules ih =>
    obtain ⟨hvalue, hkept⟩ := fieldValue_kept build facts h rule
    unfold walk
    dsimp only
    rw [hvalue, find?_cons, findIdx?_cons]
    have hshift : ∀ found : Option Nat,
        (found.map (· + 1)).map (· + index) = found.map (· + (index + 1)) := by
      intro found
      cases found with
      | none => rfl
      | some k => simp [Nat.add_assoc, Nat.add_comm 1 index]
    cases hmatch : rule.isMatch build (fieldValue build facts rule none).1 with
    | false =>
      have hdecides : decides build facts rule = false := by simp [decides, hmatch]
      rw [hdecides, Bool.not_false, if_pos rfl, if_neg Bool.false_ne_true, hshift]
      exact ih _ hkept _
    | true =>
      rw [Bool.not_true, if_neg Bool.false_ne_true]
      cases haction : rule.action with
      | log =>
        have hdecides : decides build facts rule = false := by
          simp [decides, haction, Action.isTerminal]
        rw [hdecides, if_neg Bool.false_ne_true, hshift]
        exact ih _ hkept _
      | _ =>
        have hdecides : decides build facts rule = true := by
          simp [decides, hmatch, haction, Action.isTerminal]
        rw [hdecides, if_pos rfl]
        refine ⟨?_, by simp⟩
        simp only [Option.map_some, Option.getD_some, haction]
        rfl

theorem countryKept_none : CountryKept build facts none := by
  intro found h
  cases h

theorem decision_evaluate {rules : RuleSet} :
    (rules.evaluate build facts).decision =
      (((rules.rules.find? (decides build facts)).map ValidatedRule.action).getD
        rules.defaultAction.action).decision :=
  (walk_spec build facts _ _ _ (countryKept_none build facts) _).1

theorem decidingRule_evaluate (rules : RuleSet) :
    rules.decidingRule (rules.evaluate build facts) = rules.rules.find? (decides build facts) := by
  have hspec := (walk_spec build facts rules.defaultAction rules.rules 0
    (countryKept_none build facts) []).2
  unfold RuleSet.decidingRule RuleSet.evaluate
  rw [hspec, find?_eq_bind_findIdx?_getElem?]
  simp

/-- Rules that cannot end a walk may be left out of the table. -/
theorem find?_only_counts (defaultAction : DefaultAction) (rules : List ValidatedRule) :
    (RuleSet.new rules defaultAction).rules.find? (decides build facts) =
      (RuleSet.new (rules.filter counts) defaultAction).rules.find? (decides build facts) :=
  (StableSort.find?_sortByKey_filter _ (fun _ h => counts_of_decides build facts h) rules).symm

/-- The table decides as its first rule in the order of `order` and written position that is
enabled, ends the walk and matches, and by its default when there is none. Tables with the
same enabled rules that end the walk decide alike, wherever others stand between them. -/
theorem evaluate_first_match (defaultAction : DefaultAction) (rules : List ValidatedRule) :
    let table := RuleSet.new rules defaultAction
    (∀ (i : Nat) rule, rules[i]? = some rule → decides build facts rule = true →
        (∀ (j : Nat) other, rules[j]? = some other → decides build facts other = true →
          rule.spec.order < other.spec.order ∨ rule.spec.order = other.spec.order ∧ i ≤ j) →
        (table.evaluate build facts).decision = rule.action.decision ∧
          table.decidingRule (table.evaluate build facts) = some rule) ∧
      ((∀ rule ∈ rules, decides build facts rule = false) →
        (table.evaluate build facts).decision = defaultAction.action.decision ∧
          (table.evaluate build facts).decidedBy = none) ∧
      ∀ rules', rules'.filter counts = rules.filter counts →
        ((RuleSet.new rules' defaultAction).evaluate build facts).decision =
            (table.evaluate build facts).decision ∧
          (RuleSet.new rules' defaultAction).decidingRule
              ((RuleSet.new rules' defaultAction).evaluate build facts) =
            table.decidingRule (table.evaluate build facts) := by
  intro table
  refine ⟨?_, ?_, ?_⟩
  · intro i rule hi hdecides hleast
    have hfound : table.rules.find? (decides build facts) = some rule :=
      StableSort.find?_sortByKey _ hi hdecides hleast
    refine ⟨?_, (decidingRule_evaluate build facts table).trans hfound⟩
    rw [decision_evaluate, hfound]
    rfl
  · intro hnone
    have hfound : ∀ rule ∈ table.rules, decides build facts rule = false :=
      fun rule hmem => hnone rule ((StableSort.mem_sortByKey _).mp hmem)
    constructor
    · rw [decision_evaluate, find?_eq_none.mpr fun rule hmem => by simp [hfound rule hmem]]
      rfl
    unfold RuleSet.evaluate
    rw [(walk_spec build facts _ _ _ (countryKept_none build facts) _).2,
      List.findIdx?_eq_none_iff.mpr hfound]
    rfl
  · intro rules' hsame
    have hfound : (RuleSet.new rules' defaultAction).rules.find? (decides build facts) =
        table.rules.find? (decides build facts) := by
      rw [find?_only_counts build facts defaultAction rules', hsame,
        ← find?_only_counts build facts defaultAction rules]
    constructor
    · rw [decision_evaluate, decision_evaluate, hfound]
      rfl
    · rw [decidingRule_evaluate, decidingRule_evaluate, hfound]

end firstMatch

/-! ### A table with a log rule and a disabled one -/

/-- A build without patterns, ranges or countries. -/
def plainBuild : Build where
  regex pattern := .ok fun value => Text.occursIn pattern.toList value.toList
  ipRules values := ⟨values.length, fun ip => some (values.contains ip)⟩
  toLowercase text := String.ofList (Text.toAsciiLowercase text.toList)
  geo := false
  lookupCountryCode _ := ""

/-- A rule on the method, compiled. -/
def methodRule (method : String) (action : Action) (order : Int) (enabled : Bool) :
    ValidatedRule where
  spec := {
    field := .method
    operator := .equals
    values := [method]
    action := action
    order := order
    enabled := enabled }
  patterns := []
  cidrs := none
  folded := [String.ofList (Text.toAsciiLowercase method.toList)]

def denyGet : ValidatedRule := methodRule "GET" .deny 1 true

def allowGet : ValidatedRule := methodRule "GET" .allow 1 true

def getFacts : RequestFacts := ⟨"203.0.113.9", "GET", []⟩

example : (ValidatedRule.new plainBuild denyGet.spec 0).toOption.map ValidatedRule.folded =
    some denyGet.folded := by decide +kernel

theorem evaluate_first_match_deny :
    ((RuleSet.new [denyGet, allowGet] .allow).evaluate plainBuild getFacts).decision =
        Action.deny.decision ∧
      ((RuleSet.new [denyGet, methodRule "GET" .log 0 true, methodRule "GET" .allow 0 false,
          allowGet] .allow).evaluate plainBuild getFacts).decision = Action.deny.decision ∧
      ((RuleSet.new [methodRule "POST" .deny 0 true] .allow).evaluate plainBuild
        getFacts).decidedBy = none := by
  have hmain := evaluate_first_match plainBuild getFacts .allow [denyGet, allowGet]
  have hfirst : ((RuleSet.new [denyGet, allowGet] .allow).evaluate plainBuild getFacts).decision =
      Action.deny.decision := by
    refine (hmain.1 0 denyGet rfl (by decide +kernel) ?_).1
    intro j other hj _
    have horder : other.spec.order = 1 := by
      rcases List.mem_pair.mp (mem_of_getElem? hj) with rfl | rfl <;> rfl
    exact .inr ⟨horder.symm, Nat.zero_le j⟩
  refine ⟨hfirst, ?_, ?_⟩
  · rw [(hmain.2.2 [denyGet, methodRule "GET" .log 0 true, methodRule "GET" .allow 0 false,
      allowGet] rfl).1]
    exact hfirst
  · refine ((evaluate_first_match plainBuild getFacts .allow
      [methodRule "POST" .deny 0 true]).2.1 ?_).2
    intro rule hrule
    rw [mem_singleton.mp hrule]
    decide +kernel

/-! ## Repeated headers -/

/-- `header_pairs`: values that are no text are skipped. -/
def headerPairs (toStr : List UInt8 → Option String) (lines : List (String × List UInt8)) :
    List (String × String) :=
  lines.filterMap fun line => (toStr line.2).map fun value => (line.1, value)

/-- The header a rule tests. -/
def ValidatedRule.headerName (rule : ValidatedRule) : Option String :=
  match rule.spec.field with
  | .userAgent => some "user-agent"
  | .referer => some "referer"
  | .header => rule.spec.header
  | .ip | .method | .geoCountry => none

/-- Every rule on a header matches all the values that the request has for it, or none. -/
def Undivided (build : Build) (rules : List ValidatedRule) (headers : List (String × String)) :
    Prop :=
  ∀ rule ∈ rules, ∀ name, rule.headerName = some name →
    (∀ line ∈ headers, Text.eqIgnoreAsciiCase line.1 name = true →
      rule.isMatch build line.2 = true) ∨
    ∀ line ∈ headers, Text.eqIgnoreAsciiCase line.1 name = true →
      rule.isMatch build line.2 = false

section repeated

variable {build : Build} {headers headers' : List (String × String)} {rules : List ValidatedRule}

/-- The value of a header is that of one of its lines, or empty without any. -/
theorem header_cases (facts : RequestFacts) (name : String) :
    (∃ line ∈ facts.headers, eqIgnoreAsciiCase line.1 name = true ∧ facts.header name = line.2) ∨
      (∀ line ∈ facts.headers, ¬ eqIgnoreAsciiCase line.1 name = true) ∧
        facts.header name = "" := by
  unfold RequestFacts.header
  cases hfound : facts.headers.find? fun h => eqIgnoreAsciiCase h.1 name with
  | none => exact .inr ⟨find?_eq_none.mp hfound, rfl⟩
  | some line =>
    have hname := find?_some hfound
    exact .inl ⟨line, mem_of_find?_eq_some hfound, hname, rfl⟩

theorem fieldValue_of_headerName (build : Build) {facts : RequestFacts}
    (h : ValidatedRule.headerName rule = some name) :
    (fieldValue build facts rule none).1 = facts.header name := by
  unfold ValidatedRule.headerName at h
  unfold fieldValue
  cases hfield : rule.spec.field <;> rw [hfield] at h
  case header =>
    dsimp only at h ⊢
    rw [h]
    rfl
  all_goals cases h <;> rfl

/-- A rule that is not divided by the lines matches by each of them or by none. -/
theorem Undivided.isMatch_fieldValue (h : Undivided build rules headers) (hrule : rule ∈ rules)
    (hname : rule.headerName = some name) (hline : line ∈ headers)
    (heq : eqIgnoreAsciiCase line.1 name = true) (hperm : headers.Perm headers') :
    rule.isMatch build (fieldValue build ⟨clientIp, method, headers'⟩ rule none).1 =
      rule.isMatch build line.2 := by
  rw [fieldValue_of_headerName build hname]
  rcases header_cases ⟨clientIp, method, headers'⟩ name with ⟨other, hother, heq', hvalue⟩ | hnone
  · have hmem := hperm.mem_iff.mpr hother
    rw [hvalue]
    rcases h rule hrule name hname with hall | hall
    all_goals exact (hall other hmem heq').trans (hall line hline heq).symm
  · exact absurd heq (hnone.1 line (hperm.mem_iff.mp hline))

theorem Undivided.decides_perm (h : Undivided build rules headers) (hrule : rule ∈ rules)
    (hperm : headers.Perm headers') :
    decides build ⟨clientIp, method, headers'⟩ rule =
      decides build ⟨clientIp, method, headers⟩ rule := by
  have hvalue : rule.isMatch build (fieldValue build ⟨clientIp, method, headers'⟩ rule none).1 =
      rule.isMatch build (fieldValue build ⟨clientIp, method, headers⟩ rule none).1 := by
    cases hname : rule.headerName with
    | none =>
      unfold ValidatedRule.headerName at hname
      unfold fieldValue
      cases hfield : rule.spec.field <;> simp_all
    | some name =>
      rcases header_cases ⟨clientIp, method, headers⟩ name with
        ⟨line, hline, heq, -⟩ | ⟨hnone, hempty⟩
      · rw [h.isMatch_fieldValue hrule hname hline heq hperm,
          h.isMatch_fieldValue hrule hname hline heq (.refl _)]
      · rcases header_cases ⟨clientIp, method, headers'⟩ name with
          ⟨line, hline, heq, -⟩ | ⟨-, hempty'⟩
        · exact absurd heq (hnone line (hperm.mem_iff.mpr hline))
        · rw [fieldValue_of_headerName build hname, fieldValue_of_headerName build hname, hempty,
            hempty']
  unfold decides
  rw [hvalue]

end repeated

/-- However the header lines of a request are ordered, the table decides alike and every rule on
a header matches by each of its values, exactly when every rule on a header matches all of its
values or none. -/
theorem headers_evade_nothing_iff (build : Build) (rules : List ValidatedRule)
    (defaultAction : DefaultAction) (toStr : List UInt8 → Option String)
    (clientIp method : String) (lines : List (String × List UInt8)) :
    (∀ lines', lines.Perm lines' →
      ((RuleSet.new rules defaultAction).evaluate build
          ⟨clientIp, method, headerPairs toStr lines'⟩).decision =
        ((RuleSet.new rules defaultAction).evaluate build
          ⟨clientIp, method, headerPairs toStr lines⟩).decision ∧
      ∀ rule ∈ rules, ∀ name, rule.headerName = some name → ∀ line ∈ headerPairs toStr lines,
        Text.eqIgnoreAsciiCase line.1 name = true → rule.isMatch build line.2 = true →
        rule.isMatch build (fieldValue build ⟨clientIp, method, headerPairs toStr lines'⟩
          rule none).1 = true) ↔
      Undivided build rules (headerPairs toStr lines) := by
  constructor
  · intro hall rule hrule name hname
    by_contra hdivided
    push Not at hdivided
    obtain ⟨⟨line, hline, heq, hmiss⟩, other, hother, heq', hhit⟩ := hdivided
    -- The line that the rule does not match is sent first.
    obtain ⟨raw, hraw, hvalue⟩ := mem_filterMap.mp hline
    have hperm := perm_cons_erase hraw
    have hmatch := (hall _ hperm).2 rule hrule name hname other hother heq' (by simpa using hhit)
    rw [fieldValue_of_headerName build hname, RequestFacts.header, headerPairs, filterMap_cons,
      hvalue, find?_cons, heq] at hmatch
    exact hmiss hmatch
  · intro hundivided lines' hperm
    have hpairs : (headerPairs toStr lines).Perm (headerPairs toStr lines') := hperm.filterMap _
    constructor
    · have hfound : (RuleSet.new rules defaultAction).rules.find?
            (decides build ⟨clientIp, method, headerPairs toStr lines'⟩) =
          (RuleSet.new rules defaultAction).rules.find?
            (decides build ⟨clientIp, method, headerPairs toStr lines⟩) :=
        List.find?_congr fun rule hrule =>
          hundivided.decides_perm ((StableSort.mem_sortByKey _).mp hrule) hpairs
      rw [decision_evaluate, decision_evaluate, hfound]
    · intro rule hrule name hname line hline heq hmatch
      exact (hundivided.isMatch_fieldValue hrule hname hline heq hpairs).trans hmatch

/-- A rule against an agent, compiled. -/
def denyBot : ValidatedRule where
  spec := {
    field := .userAgent
    operator := .contains
    values := ["bot"]
    action := .deny }
  patterns := []
  cidrs := none
  folded := ["bot"]

/-- A client with a denied agent is let through once it sends another agent first. -/
theorem denied_agent_evades :
    (validateRules plainBuild [denyBot.spec]).toOption.map (·.map ValidatedRule.folded) =
        some [denyBot.folded] ∧
      ((RuleSet.new [denyBot] .allow).evaluate plainBuild ⟨"203.0.113.9", "GET",
        [("user-agent", "badbot"), ("user-agent", "x")]⟩).decision = Action.deny.decision ∧
      ((RuleSet.new [denyBot] .allow).evaluate plainBuild ⟨"203.0.113.9", "GET",
        [("user-agent", "x"), ("user-agent", "badbot")]⟩).decision = Action.allow.decision := by
  decide +kernel

end Acl
