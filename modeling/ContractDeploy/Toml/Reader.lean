import ContractDeploy.Toml.Value

/-!
# Reading TOML

`Toml.read?` reads a TOML 1.0 document into the entries of its root table, or gives `none`
when the text is no TOML document. It checks the whole grammar (keys bare, quoted or dotted;
basic, literal and multi-line strings with their escapes; integers with their bases and range;
floats, none of them so large that it rounds to positive infinity; dates and times with their
ranges; arrays; inline tables on one line, without a trailing comma), the bound on nesting
(arrays and inline tables fewer than 80 deep, keys of fewer than 80 parts) and the rules on
defining tables:

* no key is defined twice, under any spelling;
* a `[header]` may open a table only once, and only if nothing but headers below it made it;
* a dotted key may reach only into tables that dotted keys of the same table made;
* a `[[header]]` adds a table to an array of tables, and a header below it reaches into the
  last one;
* values, inline tables and arrays among them, take no more keys.
-/

namespace ContractDeploy

namespace Toml

def isBlank (c : Char) : Bool := c == ' ' || c == '\t'

def skipBlanks (cs : List Char) : List Char := cs.dropWhile isBlank

def isTextChar (c : Char) : Bool := c == '\t' || (c.toNat ≥ 0x20 && c.toNat != 0x7F)

def newline : List Char → Option (List Char)
  | '\n' :: rest => some rest
  | '\r' :: '\n' :: rest => some rest
  | _ => none

def skipComment : List Char → List Char
  | '#' :: rest => rest.dropWhile isTextChar
  | cs => cs

def lineEnd (cs : List Char) : Option (List Char) :=
  match skipComment (skipBlanks cs) with
  | [] => some []
  | cs => newline cs

def skipSpace : Nat → List Char → List Char
  | 0, cs => cs
  | fuel + 1, cs =>
    let cs := skipComment (skipBlanks cs)
    match newline cs with
    | some rest => skipSpace fuel rest
    | none => cs

def hexValue? (c : Char) : Option Nat :=
  if c.isDigit then some (c.toNat - '0'.toNat)
  else if 'a' ≤ c && c ≤ 'f' then some (c.toNat - 'a'.toNat + 10)
  else if 'A' ≤ c && c ≤ 'F' then some (c.toNat - 'A'.toNat + 10)
  else none

def hexNumber? (ds : List Char) : Option Nat :=
  ds.foldlM (fun acc d => (hexValue? d).map (acc * 16 + ·)) 0

def scalar? (n : Nat) : Option Char := if n.isValidChar then some (Char.ofNat n) else none

def simpleEscape : Char → Option Char
  | 'b' => some '\x08'
  | 't' => some '\t'
  | 'n' => some '\n'
  | 'f' => some '\x0c'
  | 'r' => some '\r'
  | '"' => some '"'
  | '\\' => some '\\'
  | _ => none

def isBasicChar (c : Char) : Bool := isTextChar c && c != '"' && c != '\\'

def basicString : List Char → List Char → Option (String × List Char)
  | [], _ => none
  | '"' :: rest, acc => some (String.ofList acc.reverse, rest)
  | '\\' :: 'u' :: a :: b :: c :: d :: rest, acc =>
    match (hexNumber? [a, b, c, d]).bind scalar? with
    | some ch => basicString rest (ch :: acc)
    | none => none
  | '\\' :: 'U' :: a :: b :: c :: d :: e :: f :: g :: h :: rest, acc =>
    match (hexNumber? [a, b, c, d, e, f, g, h]).bind scalar? with
    | some ch => basicString rest (ch :: acc)
    | none => none
  | '\\' :: e :: rest, acc =>
    match simpleEscape e with
    | some ch => basicString rest (ch :: acc)
    | none => none
  | c :: rest, acc => if isBasicChar c then basicString rest (c :: acc) else none

def literalString : List Char → List Char → Option (String × List Char)
  | [], _ => none
  | '\'' :: rest, acc => some (String.ofList acc.reverse, rest)
  | c :: rest, acc => if isTextChar c then literalString rest (c :: acc) else none

def mlBasicString : Bool → List Char → List Char → Option (String × List Char)
  | true, ' ' :: rest, acc => mlBasicString true rest acc
  | true, '\t' :: rest, acc => mlBasicString true rest acc
  | true, '\n' :: rest, acc => mlBasicString true rest acc
  | true, '\r' :: '\n' :: rest, acc => mlBasicString true rest acc
  | _, '"' :: '"' :: '"' :: '"' :: '"' :: rest, acc =>
    some (String.ofList ('"' :: '"' :: acc).reverse, rest)
  | _, '"' :: '"' :: '"' :: '"' :: rest, acc => some (String.ofList ('"' :: acc).reverse, rest)
  | _, '"' :: '"' :: '"' :: rest, acc => some (String.ofList acc.reverse, rest)
  | _, '\\' :: 'u' :: a :: b :: c :: d :: rest, acc =>
    match (hexNumber? [a, b, c, d]).bind scalar? with
    | some ch => mlBasicString false rest (ch :: acc)
    | none => none
  | _, '\\' :: 'U' :: a :: b :: c :: d :: e :: f :: g :: h :: rest, acc =>
    match (hexNumber? [a, b, c, d, e, f, g, h]).bind scalar? with
    | some ch => mlBasicString false rest (ch :: acc)
    | none => none
  | _, '\\' :: tail@(e :: _), acc =>
    match simpleEscape e with
    | some ch => mlBasicString false tail.tail (ch :: acc)
    | none => if (newline (skipBlanks tail)).isSome then mlBasicString true tail acc else none
  | _, '\n' :: rest, acc => mlBasicString false rest ('\n' :: acc)
  | _, '\r' :: '\n' :: rest, acc => mlBasicString false rest ('\n' :: acc)
  | _, c :: rest, acc =>
    if isTextChar c && c != '\\' then mlBasicString false rest (c :: acc) else none
  | _, [], _ => none

def mlLiteralString : List Char → List Char → Option (String × List Char)
  | '\'' :: '\'' :: '\'' :: '\'' :: '\'' :: rest, acc =>
    some (String.ofList ('\'' :: '\'' :: acc).reverse, rest)
  | '\'' :: '\'' :: '\'' :: '\'' :: rest, acc => some (String.ofList ('\'' :: acc).reverse, rest)
  | '\'' :: '\'' :: '\'' :: rest, acc => some (String.ofList acc.reverse, rest)
  | '\n' :: rest, acc => mlLiteralString rest ('\n' :: acc)
  | '\r' :: '\n' :: rest, acc => mlLiteralString rest ('\n' :: acc)
  | c :: rest, acc => if isTextChar c then mlLiteralString rest (c :: acc) else none
  | [], _ => none

def dropOpeningBreak (cs : List Char) : List Char := (newline cs).getD cs

def isBareChar (c : Char) : Bool := c.isAlphanum || c == '-' || c == '_'

def simpleKey (cs : List Char) : Option (String × List Char) :=
  match cs with
  | '"' :: rest => basicString rest []
  | '\'' :: rest => literalString rest []
  | _ =>
    let k := cs.takeWhile isBareChar
    if k.isEmpty then none else some (String.ofList k, cs.drop k.length)

def moreKeys : Nat → List Char → Option (List String × List Char)
  | 0, _ => none
  | fuel + 1, cs =>
    match skipBlanks cs with
    | '.' :: rest => do
      let (k, rest) ← simpleKey (skipBlanks rest)
      let (ks, rest) ← moreKeys fuel rest
      return (k :: ks, rest)
    | _ => some ([], cs)

def nestingLimit : Nat := 80

def key (fuel : Nat) (cs : List Char) : Option (List String × List Char) := do
  let (k, rest) ← simpleKey cs
  let (ks, rest) ← moreKeys fuel rest
  if ks.length + 1 ≥ nestingLimit then none
  return (k :: ks, rest)

def afterDigit (isD : Char → Bool) : List Char → List Char × List Char
  | '_' :: c :: rest =>
    if isD c then
      let (ds, r) := afterDigit isD rest
      (c :: ds, r)
    else ([], '_' :: c :: rest)
  | c :: rest =>
    if isD c then
      let (ds, r) := afterDigit isD rest
      (c :: ds, r)
    else ([], c :: rest)
  | [] => ([], [])

def digitRun (isD : Char → Bool) : List Char → Option (List Char × List Char)
  | c :: rest =>
    if isD c then
      let (ds, r) := afterDigit isD rest
      some (c :: ds, r)
    else none
  | [] => none

def isOctal (c : Char) : Bool := '0' ≤ c && c ≤ '7'

def isBinary (c : Char) : Bool := c == '0' || c == '1'

def isHex (c : Char) : Bool := (hexValue? c).isSome

def digitsValue (base : Nat) (ds : List Char) : Nat :=
  ds.foldl (fun acc d => acc * base + ((hexValue? d).getD 0)) 0

def maxInt : Nat := Nat.pow 2 63 - 1

def intValue? (negative : Bool) (n : Nat) : Option TomlValue :=
  if negative then (if n ≤ maxInt + 1 then some (.int (-(n : Int))) else none)
  else if n ≤ maxInt then some (.int n) else none

def overflowThreshold : Nat := (Nat.pow 2 54 - 1) * Nat.pow 2 970

def decimalLength (n : Nat) : Nat := if n = 0 then 0 else (toString n).length

def roundsToInfinity (m : Nat) (e : Int) : Bool :=
  let k := (decimalLength m : Int)
  if m = 0 then false
  else if k - 1 + e ≥ 309 then true
  else if k + e ≤ 308 then false
  else if e ≥ 0 then m * Nat.pow 10 e.toNat ≥ overflowThreshold
  else m ≥ overflowThreshold * Nat.pow 10 e.natAbs

def decimalInteger : List Char → Option (List Char × List Char)
  | '0' :: rest =>
    match rest with
    | c :: _ => if c.isDigit || c == '_' then none else some (['0'], rest)
    | [] => some (['0'], [])
  | cs => digitRun Char.isDigit cs

def decimalNumber (negative : Bool) (cs : List Char) : Option (TomlValue × List Char) := do
  let (whole, rest) ← decimalInteger cs
  let (frac, rest) ← match rest with
    | '.' :: r => (digitRun Char.isDigit r).map fun (ds, r) => (some ds, r)
    | r => some (none, r)
  let (exp, rest) ← match rest with
    | e :: r =>
      if e == 'e' || e == 'E' then
        let (neg, r) := match r with
          | '+' :: r => (false, r)
          | '-' :: r => (true, r)
          | r => (false, r)
        (digitRun Char.isDigit r).map fun (ds, r) => (some (neg, ds), r)
      else some (none, e :: r)
    | [] => some (none, [])
  match frac, exp with
  | none, none => return (← intValue? negative (digitsValue 10 whole), rest)
  | _, _ =>
    let fracDs := frac.getD []
    let m := digitsValue 10 (whole ++ fracDs)
    let e : Int := (match exp with
      | some (true, ds) => -(digitsValue 10 ds : Int)
      | some (false, ds) => (digitsValue 10 ds : Int)
      | none => 0) - fracDs.length
    if !negative && roundsToInfinity m e then none
    let x := if e ≥ 0 then Float.ofScientific m false e.toNat else Float.ofScientific m true e.natAbs
    return (.float (if negative then -x else x), rest)

def number (cs : List Char) : Option (TomlValue × List Char) :=
  let (negative, signed, body) := match cs with
    | '+' :: r => (false, true, r)
    | '-' :: r => (true, true, r)
    | r => (false, false, r)
  match body with
  | 'i' :: 'n' :: 'f' :: rest => some (.float (if negative then -(1.0 / 0.0) else 1.0 / 0.0), rest)
  | 'n' :: 'a' :: 'n' :: rest => some (.float (0.0 / 0.0), rest)
  | '0' :: 'x' :: rest =>
    if signed then none else do
      let (ds, rest) ← digitRun isHex rest
      return (← intValue? false (digitsValue 16 ds), rest)
  | '0' :: 'o' :: rest =>
    if signed then none else do
      let (ds, rest) ← digitRun isOctal rest
      return (← intValue? false (digitsValue 8 ds), rest)
  | '0' :: 'b' :: rest =>
    if signed then none else do
      let (ds, rest) ← digitRun isBinary rest
      return (← intValue? false (digitsValue 2 ds), rest)
  | _ => decimalNumber negative body

def fixedDigits : Nat → List Char → Option (Nat × List Char)
  | 0, cs => some (0, cs)
  | n + 1, c :: rest =>
    if c.isDigit then
      (fixedDigits n rest).map fun (v, r) => ((c.toNat - '0'.toNat) * Nat.pow 10 n + v, r)
    else none
  | _ + 1, [] => none

def daysInMonth (year month : Nat) : Nat :=
  if month = 2 then
    if year % 4 = 0 && (year % 100 != 0 || year % 400 = 0) then 29 else 28
  else if month = 4 || month = 6 || month = 9 || month = 11 then 30 else 31

def date (cs : List Char) : Option (TomlDate × List Char) := do
  let (y, rest) ← fixedDigits 4 cs
  let rest ← match rest with | '-' :: r => some r | _ => none
  let (m, rest) ← fixedDigits 2 rest
  let rest ← match rest with | '-' :: r => some r | _ => none
  let (d, rest) ← fixedDigits 2 rest
  if 1 ≤ m && m ≤ 12 && 1 ≤ d && d ≤ daysInMonth y m then some (⟨y, m, d⟩, rest) else none

def nanoseconds (ds : List Char) : Nat :=
  let ds := ds.take 9
  digitsValue 10 ds * Nat.pow 10 (9 - ds.length)

def time (cs : List Char) : Option (TomlTime × List Char) := do
  let (h, rest) ← fixedDigits 2 cs
  let rest ← match rest with | ':' :: r => some r | _ => none
  let (m, rest) ← fixedDigits 2 rest
  let rest ← match rest with | ':' :: r => some r | _ => none
  let (s, rest) ← fixedDigits 2 rest
  let (ns, rest) ← match rest with
    | '.' :: r =>
      let ds := r.takeWhile Char.isDigit
      if ds.isEmpty then none else some (nanoseconds ds, r.drop ds.length)
    | r => some (0, r)
  if h ≤ 23 && m ≤ 59 && s ≤ 60 then some (⟨h, m, s, ns⟩, rest) else none

def offset (cs : List Char) : Option (Option UtcOffset × List Char) :=
  match cs with
  | 'Z' :: rest | 'z' :: rest => some (some .utc, rest)
  | c :: rest =>
    if c == '+' || c == '-' then do
      let (h, r) ← fixedDigits 2 rest
      let r ← match r with | ':' :: r => some r | _ => none
      let (m, r) ← fixedDigits 2 r
      let total : Int := (h * 60 + m : Nat)
      if h ≤ 23 && m ≤ 59 then some (some (.minutes (if c == '-' then -total else total)), r)
      else none
    else some (none, cs)
  | [] => some (none, [])

def datetime (cs : List Char) : Option (TomlValue × List Char) :=
  match date cs with
  | some (d, rest) =>
    let dateOnly := some (TomlValue.datetime ⟨some d, none, none⟩, rest)
    let timed := fun (more : List Char) => (time more).bind fun (t, r) =>
      (offset r).map fun (o, r) => (TomlValue.datetime ⟨some d, some t, o⟩, r)
    match rest with
    | sep :: more =>
      if sep == 'T' || sep == 't' then timed more
      else if sep == ' ' then
        match timed more with
        | some x => some x
        | none => dateOnly
      else dateOnly
    | [] => dateOnly
  | none => (time cs).map fun (t, r) => (TomlValue.datetime ⟨none, some t, none⟩, r)

def looksTimed (cs : List Char) : Bool :=
  match cs with
  | a :: b :: c :: d :: '-' :: _ => a.isDigit && b.isDigit && c.isDigit && d.isDigit
  | a :: b :: ':' :: _ => a.isDigit && b.isDigit
  | _ => false

def lookup (k : String) : List (String × TomlNode) → Option TomlNode
  | [] => none
  | (k', n) :: es => if k' = k then some n else lookup k es

def replace (k : String) (n : TomlNode) : List (String × TomlNode) → List (String × TomlNode)
  | [] => []
  | (k', n') :: es => if k' = k then (k, n) :: es else (k', n') :: replace k n es

def modifyAt (viaDots : Bool)
    (f : TableOrigin → List (String × TomlNode) → Option (List (String × TomlNode))) :
    List String → TableOrigin → List (String × TomlNode) → Option (List (String × TomlNode))
  | [], o, es => f o es
  | k :: ks, _, es =>
    match lookup k es with
    | none =>
      let o := if viaDots then TableOrigin.dotted else .implicit
      (modifyAt viaDots f ks o []).map fun child => es ++ [(k, .table o child)]
    | some (.leaf _) => none
    | some (.tables ts) =>
      match ts.getLast? with
      | some last =>
        (modifyAt viaDots f ks .explicit last).map fun child =>
          replace k (.tables (ts.dropLast ++ [child])) es
      | none => none
    | some (.table o child) =>
      if viaDots && o == .explicit then none
      else (modifyAt viaDots f ks o child).map fun child => replace k (.table o child) es

/-- Defines the dotted key `path` as `v` in a table of origin `o`. -/
def defineKey (path : List String) (v : TomlValue) (o : TableOrigin)
    (es : List (String × TomlNode)) : Option (List (String × TomlNode)) :=
  match path.getLast? with
  | none => none
  | some k =>
    let parents := path.dropLast
    modifyAt true (fun o' es' =>
      if !parents.isEmpty && o' != .dotted then none
      else if (lookup k es').isSome then none
      else some (es' ++ [(k, .leaf v)])) parents o es

def openTable (path : List String) (root : List (String × TomlNode)) :
    Option (List (String × TomlNode)) :=
  match path.getLast? with
  | none => none
  | some k =>
    modifyAt false (fun _ es =>
      match lookup k es with
      | none => some (es ++ [(k, .table .explicit [])])
      | some (.table .implicit child) => some (replace k (.table .explicit child) es)
      | _ => none) path.dropLast .explicit root

def openArrayTable (path : List String) (root : List (String × TomlNode)) :
    Option (List (String × TomlNode)) :=
  match path.getLast? with
  | none => none
  | some k =>
    modifyAt false (fun _ es =>
      match lookup k es with
      | none => some (es ++ [(k, .tables [[]])])
      | some (.tables ts) => some (replace k (.tables (ts ++ [[]])) es)
      | _ => none) path.dropLast .explicit root

mutual

def value : Nat → Nat → List Char → Option (TomlValue × List Char)
  | 0, _, _ => none
  | fuel + 1, depth, cs =>
    match cs with
    | '"' :: '"' :: '"' :: rest =>
      (mlBasicString false (dropOpeningBreak rest) []).map fun (s, r) => (.str s, r)
    | '"' :: rest => (basicString rest []).map fun (s, r) => (.str s, r)
    | '\'' :: '\'' :: '\'' :: rest =>
      (mlLiteralString (dropOpeningBreak rest) []).map fun (s, r) => (.str s, r)
    | '\'' :: rest => (literalString rest []).map fun (s, r) => (.str s, r)
    | 't' :: 'r' :: 'u' :: 'e' :: rest => some (.bool true, rest)
    | 'f' :: 'a' :: 'l' :: 's' :: 'e' :: rest => some (.bool false, rest)
    | '[' :: rest => if depth + 1 ≥ nestingLimit then none else arrayItems fuel (depth + 1) rest []
    | '\x7b' :: rest =>
      if depth + 1 ≥ nestingLimit then none
      else match skipBlanks rest with
        | '\x7d' :: r => some (.table [], r)
        | r => inlineEntries fuel (depth + 1) r []
    | _ => if looksTimed cs then datetime cs else number cs

def arrayItems : Nat → Nat → List Char → List TomlValue → Option (TomlValue × List Char)
  | 0, _, _, _ => none
  | fuel + 1, depth, cs, acc =>
    match skipSpace (cs.length + 1) cs with
    | ']' :: rest => some (.array acc.reverse, rest)
    | cs => do
      let (v, rest) ← value fuel depth cs
      match skipSpace (rest.length + 1) rest with
      | ',' :: rest => arrayItems fuel depth rest (v :: acc)
      | ']' :: rest => some (.array (v :: acc).reverse, rest)
      | _ => none

def inlineEntries : Nat → Nat → List Char → List (String × TomlNode) →
    Option (TomlValue × List Char)
  | 0, _, _, _ => none
  | fuel + 1, depth, cs, es => do
    let (path, rest) ← key fuel cs
    let rest ← match skipBlanks rest with
      | '=' :: r => some (skipBlanks r)
      | _ => none
    let (v, rest) ← value fuel depth rest
    let es ← defineKey path v .explicit es
    match skipBlanks rest with
    | ',' :: r => inlineEntries fuel depth (skipBlanks r) es
    | '\x7d' :: r => some (.table (TomlNode.entriesToValue es), r)
    | _ => none

end

def keyLine (fuel : Nat) (current : List String) (root : List (String × TomlNode))
    (cs : List Char) : Option (List (String × TomlNode) × List Char) := do
  let (path, rest) ← key fuel cs
  let rest ← match skipBlanks rest with
    | '=' :: r => some (skipBlanks r)
    | _ => none
  let (v, rest) ← value fuel 0 rest
  let rest ← lineEnd rest
  let root ← modifyAt false (fun o es => defineKey path v o es) current .explicit root
  return (root, rest)

def headerLine (fuel : Nat) (double : Bool) (cs : List Char) : Option (List String × List Char) := do
  let (path, rest) ← key fuel (skipBlanks cs)
  let rest ← match skipBlanks rest, double with
    | ']' :: ']' :: r, true => some r
    | ']' :: r, false => some r
    | _, _ => none
  return (path, ← lineEnd rest)

def lines : Nat → List String → List (String × TomlNode) → List Char →
    Option (List (String × TomlNode))
  | 0, _, _, _ => none
  | fuel + 1, current, root, cs =>
    match skipBlanks cs with
    | [] => some root
    | '[' :: '[' :: rest => do
      let (path, rest) ← headerLine fuel true rest
      lines fuel path (← openArrayTable path root) rest
    | '[' :: rest => do
      let (path, rest) ← headerLine fuel false rest
      lines fuel path (← openTable path root) rest
    | line@('#' :: _) | line@('\n' :: _) | line@('\r' :: _) => do
      lines fuel current root (← lineEnd line)
    | line => do
      let (root, rest) ← keyLine fuel current root line
      lines fuel current root rest

def byteOrderMark : Char := '\uFEFF'

/-- Reads a TOML document: the entries of its root table. -/
def read? (s : String) : Option (List (String × TomlValue)) :=
  let cs := match s.toList with
    | c :: rest => if c = byteOrderMark then rest else c :: rest
    | [] => []
  (lines (2 * cs.length + 2) [] [] cs).map TomlNode.entriesToValue

end Toml

end ContractDeploy
