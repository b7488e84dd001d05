import ContractDeploy.Source.Unit
import ContractDeploy.Address
import ContractDeploy.Text.Utf8

/-!
# Substituting addresses for imports

Before deployment, the address literal of each import of a path that resolves to an address
takes the place of the path. Two strategies do it:

* `substituteSpans` replaces the quoted literal at each import's span. The imports are taken in
  order of their start offsets (imports with equal starts in their given order); an import
  that does not resolve, that starts before the end of the last replacement, or that ends past
  the code, is left as it is;
* `substituteFirst` replaces, for each location and address in turn, the first occurrence of the
  quoted location anywhere in the text as it stands.
-/

namespace ContractDeploy

inductive Substitution where
  | importSpans
  | firstOccurrence
  deriving DecidableEq, Repr, Inhabited

namespace Substitution

def name : Substitution → String
  | importSpans => "import-spans"
  | firstOccurrence => "first-occurrence"

def ofName? : String → Option Substitution
  | "import-spans" => some importSpans
  | "first-occurrence" => some firstOccurrence
  | _ => none

end Substitution

namespace Splice

def spanStep (code : List Char) (len : Nat) (resolve : String → Option Address)
    (st : List Char × Nat) (imp : SourceImport) : List Char × Nat :=
  let (out, cursor) := st
  match resolve imp.location with
  | none => st
  | some a =>
    let s := imp.span.start.offset
    let e := imp.span.stop.offset
    if s < cursor || e > len then st
    else (out ++ Utf8.slice code cursor s ++ a.literal.toList, e)

def replaceFirst (pat rep : List Char) : List Char → List Char
  | [] => if pat.isEmpty then rep else []
  | c :: cs =>
    if pat.isPrefixOf (c :: cs) then rep ++ (c :: cs).drop pat.length
    else c :: replaceFirst pat rep cs

end Splice

/-- The code with the literal of each resolved import replaced at its span. -/
def substituteSpans (code : String) (imports : List SourceImport)
    (resolve : String → Option Address) : String :=
  let cs := code.toList
  let len := code.utf8ByteSize
  let ordered := imports.mergeSort fun a b => a.span.start.offset ≤ b.span.start.offset
  let (out, cursor) := ordered.foldl (Splice.spanStep cs len resolve) ([], 0)
  String.ofList (out ++ Utf8.slice cs cursor len)

/-- The code with the first occurrence of each quoted location replaced by its address, one
pair after the other. -/
def substituteFirst (code : String) (pairs : List (String × Address)) : String :=
  String.ofList <| pairs.foldl (fun cs (loc, a) =>
    Splice.replaceFirst ('"' :: (loc.toList ++ ['"'])) a.literal.toList cs) code.toList

end ContractDeploy
