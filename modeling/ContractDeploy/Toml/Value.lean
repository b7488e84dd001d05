
namespace ContractDeploy

structure TomlDate where
  year : Nat
  month : Nat
  day : Nat
  deriving DecidableEq, Repr

structure TomlTime where
  hour : Nat
  minute : Nat
  second : Nat
  nanosecond : Nat
  deriving DecidableEq, Repr

inductive UtcOffset where
  | utc
  | minutes (m : Int)
  deriving DecidableEq, Repr

structure TomlDatetime where
  date : Option TomlDate
  time : Option TomlTime
  offset : Option UtcOffset
  deriving DecidableEq, Repr

def padDigits (width n : Nat) : String :=
  let ds := (toString n).toList
  String.ofList (List.replicate (width - ds.length) '0' ++ ds)

def TomlDate.text (d : TomlDate) : String :=
  padDigits 4 d.year ++ "-" ++ padDigits 2 d.month ++ "-" ++ padDigits 2 d.day

def TomlTime.text (t : TomlTime) : String :=
  let fraction :=
    if t.nanosecond = 0 then ""
    else "." ++ String.ofList ((padDigits 9 t.nanosecond).toList.reverse.dropWhile (· = '0')).reverse
  padDigits 2 t.hour ++ ":" ++ padDigits 2 t.minute ++ ":" ++ padDigits 2 t.second ++ fraction

def UtcOffset.text : UtcOffset → String
  | utc => "Z"
  | minutes m =>
    (if m < 0 then "-" else "+") ++ padDigits 2 (m.natAbs / 60) ++ ":" ++ padDigits 2 (m.natAbs % 60)

def TomlDatetime.text (d : TomlDatetime) : String :=
  let date := (d.date.map TomlDate.text).getD ""
  let time := match d.time with
    | some t => (if d.date.isSome then "T" else "") ++ t.text
    | none => ""
  date ++ time ++ (d.offset.map UtcOffset.text).getD ""

example : TomlDatetime.text ⟨some ⟨1979, 5, 27⟩, some ⟨7, 32, 0, 500000000⟩, some (.minutes 0)⟩
    = "1979-05-27T07:32:00.5+00:00" := by decide +kernel

inductive TomlValue where
  | str (s : String)
  | int (n : Int)
  | float (x : Float)
  | bool (b : Bool)
  | datetime (d : TomlDatetime)
  | array (items : List TomlValue)
  | table (entries : List (String × TomlValue))
  deriving Inhabited

inductive TableOrigin where
  | explicit
  | implicit
  | dotted
  deriving DecidableEq, Repr, Inhabited

inductive TomlNode where
  | leaf (v : TomlValue)
  | table (origin : TableOrigin) (entries : List (String × TomlNode))
  | tables (items : List (List (String × TomlNode)))
  deriving Inhabited

namespace TomlNode

mutual

def toValue : TomlNode → TomlValue
  | leaf v => v
  | table _ es => .table (entriesToValue es)
  | tables ts => .array (tablesToValue ts)

def entriesToValue : List (String × TomlNode) → List (String × TomlValue)
  | [] => []
  | (k, n) :: es => (k, toValue n) :: entriesToValue es

def tablesToValue : List (List (String × TomlNode)) → List TomlValue
  | [] => []
  | t :: ts => .table (entriesToValue t) :: tablesToValue ts

end

end TomlNode

end ContractDeploy
