import Pingap.Text

/-!
# Textual IP addresses

Parsing and printing of `std::net::IpAddr`. The reader follows the standard
library's parser: every step either consumes what it accepts or leaves the input
alone, and an address is accepted only when nothing is left over. Printing gives
each address one canonical spelling.
-/

namespace IpText

inductive IpAddr where
  | v4 (octets : List Nat)
  | v6 (segments : List Nat)
deriving DecidableEq, Repr

/-! ## Reading -/

def digitValue (radix : Nat) (c : Char) : Option Nat :=
  let n := c.toNat
  let value :=
    if 48 ≤ n ∧ n ≤ 57 then some (n - 48)
    else if 97 ≤ n ∧ n ≤ 122 then some (n - 87)
    else if 65 ≤ n ∧ n ≤ 90 then some (n - 55)
    else none
  value.filter (· < radix)

/-- The longest run of digits at the head of the input, and what follows it. -/
def spanDigits (radix : Nat) : List Char → List Nat × List Char
  | [] => ([], [])
  | c :: rest =>
    match digitValue radix c with
    | some d => let (ds, rest') := spanDigits radix rest; (d :: ds, rest')
    | none => ([], c :: rest)

/-- `read_number`: at most `maxDigits` digits with a value up to `maxValue`, and
unless `allowZeroPrefix` no leading zero before another digit. -/
def readNumber (radix maxDigits maxValue : Nat) (allowZeroPrefix : Bool) (s : List Char) :
    Option (Nat × List Char) :=
  let (digits, rest) := spanDigits radix s
  let value := digits.foldl (fun acc d => acc * radix + d) 0
  if digits.isEmpty || decide (maxDigits < digits.length) then none
  else if !allowZeroPrefix && digits.head? == some 0 && decide (1 < digits.length) then none
  else if maxValue < value then none
  else some (value, rest)

def readGivenChar (c : Char) : List Char → Option (List Char)
  | [] => none
  | d :: rest => if d = c then some rest else none

/-- `read_separator`: the separator stands before every part but the first. -/
def readSeparator {α : Type} (sep : Char) (index : Nat)
    (inner : List Char → Option (α × List Char)) (s : List Char) : Option (α × List Char) :=
  if index = 0 then inner s else (readGivenChar sep s).bind inner

/-- The parts of a dotted quad from `index` on, `count` of them. -/
def readOctets : Nat → Nat → List Char → Option (List Nat × List Char)
  | 0, _, s => some ([], s)
  | count + 1, index, s => do
    let (octet, s) ← readSeparator '.' index (readNumber 10 3 255 false) s
    let (octets, s) ← readOctets count (index + 1) s
    pure (octet :: octets, s)

def readIpv4Addr (s : List Char) : Option (List Nat × List Char) := readOctets 4 0 s

/-- `read_groups`: colon-separated groups, `room` more of them at most, the last
two possibly written as a dotted quad. The flag says whether they were. -/
def readGroups : Nat → Nat → List Char → List Nat × Bool × List Char
  | 0, _, s => ([], false, s)
  | room + 1, index, s =>
    let quad := if room = 0 then none else readSeparator ':' index readIpv4Addr s
    match quad with
    | some ([a, b, c, d], s) => ([a * 256 + b, c * 256 + d], true, s)
    | _ =>
      match readSeparator ':' index (readNumber 16 4 65535 true) s with
      | some (group, s) =>
        let (groups, v4, s) := readGroups room (index + 1) s
        (group :: groups, v4, s)
      | none => ([], false, s)

def readIpv6Addr (s : List Char) : Option (List Nat × List Char) :=
  let (head, headV4, s) := readGroups 8 0 s
  if head.length = 8 then some (head, s)
  else if headV4 then none
  else do
    let s ← readGivenChar ':' s
    let s ← readGivenChar ':' s
    let (tail, _, s) := readGroups (7 - head.length) 0 s
    pure (head ++ List.replicate (8 - head.length - tail.length) 0 ++ tail, s)

/-- `str::parse::<IpAddr>`: a quad if one can be read, else a version 6 address. -/
def parse (text : String) : Option IpAddr :=
  let s := text.toList
  let read :=
    match readIpv4Addr s with
    | some (octets, rest) => some (IpAddr.v4 octets, rest)
    | none => (readIpv6Addr s).map fun (r : List Nat × List Char) => (IpAddr.v6 r.1, r.2)
  match read with
  | some (ip, []) => some ip
  | _ => none

/-! ## Printing -/

/-- A group in lower-case hexadecimal without leading zeros. -/
def showHex (n : Nat) : List Char :=
  let digits := [n / 4096 % 16, n / 256 % 16, n / 16 % 16].dropWhile (· = 0)
  (digits ++ [n % 16]).map Text.hexDigit

def joinGroups : List Nat → List Char
  | [] => []
  | [g] => showHex g
  | g :: rest => showHex g ++ ':' :: joinGroups rest

def showOctets : List Nat → List Char
  | [] => []
  | [o] => (toString o).toList
  | o :: rest => (toString o).toList ++ '.' :: showOctets rest

/-- One step of the search for the longest run of zero groups: the runs are
`(start, length)`, the first one wins a tie. -/
def zeroSpanStep (state : (Nat × Nat) × (Nat × Nat)) (entry : Nat × Nat) :
    (Nat × Nat) × (Nat × Nat) :=
  let (longest, current) := state
  let (index, segment) := entry
  if segment = 0 then
    let current := if current.2 = 0 then (index, 1) else (current.1, current.2 + 1)
    (if longest.2 < current.2 then current else longest, current)
  else (longest, (0, 0))

def longestZeroSpan (segments : List Nat) : Nat × Nat :=
  (((List.range segments.length).zip segments).foldl zeroSpanStep ((0, 0), (0, 0))).1

def display : IpAddr → String
  | .v4 octets => String.ofList (showOctets octets)
  | .v6 segments =>
    String.ofList <|
      match segments with
      | [0, 0, 0, 0, 0, 65535, a, b] =>
        "::ffff:".toList ++ showOctets [a / 256, a % 256, b / 256, b % 256]
      | _ =>
        let (start, len) := longestZeroSpan segments
        if 1 < len then
          joinGroups (segments.take start) ++ "::".toList ++ joinGroups (segments.drop (start + len))
        else joinGroups segments

example : (parse "::FFFF:10.0.0.1").map display = some "::ffff:10.0.0.1" := by decide
example : (parse "2001:db8:0:0:1:0:0:01").map display = some "2001:db8::1:0:0:1" := by decide
example : parse "010.0.0.1" = none := by decide

end IpText
