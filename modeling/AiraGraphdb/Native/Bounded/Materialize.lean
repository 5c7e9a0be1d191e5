import AiraGraphdb.Native.Bounded.Catalog

/-! # Objects and entities

A stored object goes into a result as a copy, made under the eye of the clock. The entities of a fact
are compared in lower case; the tables of the Unicode mapping are a parameter, what is done with them
is not. -/

namespace AiraGraphdb.Native.Bounded

open Schemes Schemes.Json

/-! ### Lower case -/

/-- The generated tables: what a character is mapped to when not to itself, and the two ranges. -/
class LowercaseTables where
  mapping : Char → Option (List Char)
  caseIgnorable : Char → Bool
  cased : Char → Bool

/-- A step of the scan, with a look at the clock every so many steps. -/
def scalarStep (steps : ℕ) : Run ℕ := do
  let steps ← orFail (checkedAdd steps 1) .resource
  if steps % deadlineCheckIntervalUnits = 0 then beforeMaterialization
  return steps

def scalarSteps : List Char → ℕ → Run ℕ
  | [], steps => return steps
  | _ :: scalars, steps => do
    let steps ← scalarStep steps
    scalarSteps scalars steps

/-- One more character of the output, if the bytes allow it. -/
def pushScalars (maximum : ℕ) (output : List Char) : List Char → Run (List Char)
  | [] => return output
  | c :: cs => do
    let next ← orFail (checkedAdd (output.map Char.utf8Size).sum c.utf8Size) .resource
    if maximum < next then failWith .resource
    else pushScalars maximum (output ++ [c]) cs

section Tables

variable [LowercaseTables]

/-- What the first character that is not ignored says, or `default` when there is none. -/
def firstUnignored (answer : Char → Bool) (default : Bool) : List Char → ℕ → Run (Bool × ℕ)
  | [], steps => return (default, steps)
  | c :: cs, steps => do
    let steps ← scalarStep steps
    if LowercaseTables.caseIgnorable c then firstUnignored answer default cs steps
    else return (answer c, steps)

def isFinalSigmaChecked (before after : List Char) (steps : ℕ) : Run (Bool × ℕ) := do
  let (hasCasedBefore, steps) ← firstUnignored LowercaseTables.cased false before.reverse steps
  if !hasCasedBefore then return (false, steps)
  else firstUnignored (fun c => !LowercaseTables.cased c) true after steps

def lowercaseScalars (maximum : ℕ) (before output : List Char) : List Char → ℕ → Run (List Char)
  | [], _ => return output
  | c :: after, steps => do
    let steps ← scalarStep steps
    let (isFinal, steps) ← if c.toNat = 0x03A3 then isFinalSigmaChecked before after steps
      else pure (false, steps)
    let mapped := if isFinal then [Char.ofNat 0x03C2] else (LowercaseTables.mapping c).getD [c]
    let output ← pushScalars maximum output mapped
    lowercaseScalars maximum (before ++ [c]) output after steps

def lowercaseBounded (value : String) (maximum : ℕ) : Run String := do
  let steps ← scalarSteps value.toList 0
  let output ← lowercaseScalars maximum [] [] value.toList steps
  return String.ofList output

def normalizeFactEntity (value : String) : Run String := do
  if maxObjectBytes < value.utf8ByteSize then failWith .resource
  else
    beforeAllocation
    let normalized ← lowercaseBounded value maxObjectBytes
    beforeMaterialization
    return normalized

end Tables

/-! ### Copies -/

def tryCloneJsonString (value : String) : Run String := do
  beforeAllocation
  beforeMaterialization
  return value

mutual

def tryCloneJsonValue : Value → Run Value
  | .null => return .null
  | .bool b => return .bool b
  | .num n => return .num n
  | .str s => return .str (← tryCloneJsonString s)
  | .arr values => do
    beforeAllocation
    let cloned ← tryCloneItems values
    beforeMaterialization
    return .arr cloned
  | .obj members => do
    let cloned ← tryCloneMembers members
    beforeMaterialization
    return .obj cloned

def tryCloneItems : List Value → Run (List Value)
  | [] => return []
  | v :: vs => do
    let w ← tryCloneJsonValue v
    return w :: (← tryCloneItems vs)

/-- The members come in the order of their keys, so that entering them one by one keeps it. -/
def tryCloneMembers : Object → Run Object
  | [] => return []
  | (k, v) :: ms => do
    let k ← tryCloneJsonString k
    let w ← tryCloneJsonValue v
    return (k, w) :: (← tryCloneMembers ms)

end

section

variable [Externals]

/-- An object small enough to be encoded. -/
def encodeObject (value : Value) : Option Bytes :=
  if (value.print floats).length ≤ maxObjectBytes then some (value.print floats) else none

def checkWork : Run Unit := fun m => if m.work.check.isSome then .ok ((), m) else .error ⟨.resource, m.work⟩

def materializeDomainObject (value : Value) : Run Value := do
  count .objectsConsideredForEncoding .resource
  checkWork
  beforeMaterialization
  let _ ← orFail (encodeObject value) .resource
  tryCloneJsonValue value

end

end AiraGraphdb.Native.Bounded
