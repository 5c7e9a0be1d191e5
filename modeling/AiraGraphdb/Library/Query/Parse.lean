import AiraGraphdb.Library.Connections
import AiraGraphdb.Library.GraphOps
import AiraGraphdb.Schemes.Except

/-! # Reading a query

The scanners of the query engine, on the characters of a query: none of them looks at a graph. A
scanner fails with an error, or it panics where the source cuts a text at a bad position: the
second of two marks before the end of the first, or the inside of a character that takes several
bytes. -/

namespace AiraGraphdb.Library.Query

open Schemes
open Library.Connections (CypherDialect)

/-- An error with the clause it names in its details. -/
structure QueryError where
  error : GraphDbError
  unsupportedClause : Option String
  deriving DecidableEq, Repr

inductive Failure where
  | error (e : QueryError)
  | panic
  deriving DecidableEq, Repr

def fail (code : ErrorCode) (message : String) : Failure := .error ⟨⟨code, message⟩, none⟩

def unsupported (message clause : String) : Failure :=
  .error ⟨⟨.unsupportedFeature, message⟩, some clause⟩

def syntaxError (message : String) : Failure := unsupported message "SYNTAX"

/-! ### Texts -/

def trim (s : Text) : Text := Text.trim isWhitespace s

def words (s : Text) : List Text := Text.words isWhitespace s

def startsWith (s : Text) (pat : String) : Bool := Text.startsWith s pat.toList

def stripPrefix (s : Text) (pat : String) : Option Text := Text.stripPrefix s pat.toList

def find (pat : String) (s : Text) : Option ℕ := Text.find pat.toList s

def contains (s : Text) (pat : String) : Bool := Text.contains s pat.toList

def splitOnce (pat : String) (s : Text) : Option (Text × Text) := Text.splitOnce pat.toList s

def trimStartMatches (s : Text) (pat : String) : Text := Text.trimStartMatches s pat.toList

/-- The inside of a text between two marks. -/
def between (s : Text) (opening closing : Char) : Option Text :=
  (Text.stripPrefix s [opening]).bind fun s => Text.stripSuffix s [closing]

def upper (s : Text) : Text := s.map Char.toUpper

/-! ### Literals and assignments -/

def parseValue (raw : Text) : Except Failure Value :=
  if startsWith raw "'" && Text.endsWith raw ['\''] && decide (2 ≤ raw.length) then
    .ok (.string (String.ofList (raw.drop 1).dropLast))
  else if Text.eqIgnoreAsciiCase raw "true".toList then .ok (.bool true)
  else if Text.eqIgnoreAsciiCase raw "false".toList then .ok (.bool false)
  else match Text.parseI64 raw with
    | some n => .ok (.int64 n)
    | none => match F64.ofText raw with
      | some x => .ok (.float64 ⟨x.bits⟩)
      | none => .error (syntaxError "unsupported literal value")

def parseAssignment (assignment : Text) : Except Failure (String × Value) := do
  let (left, right) ← ofOption ((splitOnce "=" assignment).or (splitOnce ":" assignment))
    (syntaxError "assignment must be key=value or key:value")
  let key := (stripPrefix (trim left) "n.").getD (trim left)
  return (String.ofList key, ← parseValue (trim right))

def parseProperties (propsPart : Text) : Except Failure Properties := do
  let raw ← ofOption (between propsPart '{' '}') (syntaxError "invalid properties object")
  if (trim raw).isEmpty then return ∅
  (raw.splitOn ',').foldlM (fun props entry => do
    let (key, value) ← parseAssignment (trim entry)
    return props.insert key value) ∅

def parseListValues (raw : Text) : Except Failure (List Value) := do
  let inner ← ofOption (between (trim raw) '[' ']') (syntaxError "invalid UNWIND list")
  if (trim inner).isEmpty then return []
  (inner.splitOn ',').mapM fun part => parseValue (trim part)

/-! ### Node patterns -/

def parseCreateOrMergePayload (query : Text) (clause : String) :
    Except Failure (String × Properties) := do
  let inner ← ofOption (between (trim (trimStartMatches query clause)) '(' ')')
    (syntaxError "invalid node pattern")
  let (_, afterColon) ← ofOption (splitOnce ":" inner)
    (fail .unsupportedFeature "label is required in node pattern")
  match find "\x7b" afterColon with
  | some brace =>
    let props ← parseProperties (trim (afterColon.drop brace))
    return (String.ofList (trim (afterColon.take brace)), props)
  | none => return (String.ofList (trim afterColon), ∅)

/-- How many characters a pattern takes up to the bracket that closes it. -/
def patternEnd (depth : ℕ) : Text → Option ℕ
  | [] => none
  | c :: cs =>
    if c = '(' then (patternEnd (depth + 1) cs).map (· + 1)
    else if c = ')' then if depth - 1 = 0 then some 1 else (patternEnd (depth - 1) cs).map (· + 1)
    else (patternEnd depth cs).map (· + 1)

def splitPatternAndTail (query : Text) (clause : String) : Except Failure (Text × Text) := do
  let trimmed := trim query
  let body ← ofOption (stripPrefix trimmed clause) (fail .unsupportedFeature "missing clause prefix")
  let stop ← ofOption (patternEnd 0 body) (syntaxError "invalid node pattern")
  let patternLength := clause.toList.length + stop
  return (trimmed.take patternLength, trimmed.drop patternLength)

def parseMergeSetClause (tail : Text) (marker : String) :
    Except Failure (Option (String × Value)) :=
  match splitOnce marker (trim tail) with
  | none => .ok none
  | some (_, rest) =>
    let assignment := match splitOnce " ON " (trim rest) with
      | some (untilNext, _) => untilNext
      | none => trim rest
    (parseAssignment assignment).map some

/-! ### Modifiers and filters -/

/-- The number after a word of the query, if the word is there. -/
def parseModifier (query : Text) (word missing invalid : String) : Except Failure (Option ℕ) :=
  match splitOnce word query with
  | none => .ok none
  | some (_, tail) => do
    let num ← ofOption (words tail).head? (syntaxError missing)
    return some (← ofOption (Text.parseU64 num) (syntaxError invalid))

structure ReturnModifiers where
  orderBy : Bool
  skip : Option ℕ
  limit : Option ℕ

def parseReturnModifiers (query : Text) : Except Failure ReturnModifiers := do
  let orderBy ← match find "ORDER BY" query with
    | none => pure false
    | some idx =>
      if startsWith (trim (query.drop idx)) "ORDER BY n.id" then pure true
      else .error (unsupported "only ORDER BY n.id is supported" "ORDER BY")
  let skip ← parseModifier query "SKIP " "SKIP requires number" "invalid SKIP number"
  let limit ← parseModifier query "LIMIT " "LIMIT requires number" "invalid LIMIT number"
  return ⟨orderBy, skip, limit⟩

def ReturnModifiers.apply {α : Type} (m : ReturnModifiers) (rows : List α) : List α :=
  let rows := match m.skip with
    | some skip => rows.drop skip
    | none => rows
  match m.limit with
  | some limit => rows.take limit
  | none => rows

/-- The condition `n.id = '<id>'` of a `WHERE`. -/
def parseIdCondition (condition : Text) : Except Failure String := do
  let (left, right) ← ofOption (splitOnce "=" condition)
    (fail .unsupportedFeature "WHERE supports only equality")
  if trim left ≠ "n.id".toList then
    .error (fail .unsupportedFeature "WHERE currently supports n.id equality only")
  else match ← parseValue (trim right) with
    | .string id => return id
    | _ => .error (fail .unsupportedFeature "n.id filter must be string")

structure MatchFilters where
  label : Option String
  id : Option String

def parseMatchFilters (query : Text) : Except Failure MatchFilters := do
  let afterMatch := trim (trimStartMatches query "MATCH ")
  let patternEnd ← ofOption (find ")" afterMatch) (syntaxError "invalid MATCH pattern")
  let pattern := afterMatch.take (patternEnd + 1)
  let remainder := trim (afterMatch.drop (patternEnd + 1))
  let label := (splitOnce ":" pattern).map fun p => String.ofList (trim p.2.dropLast)
  if startsWith remainder "RETURN " then
    if (words remainder)[1]?.isNone then
      .error (syntaxError "RETURN requires a projection variable")
    else return ⟨label, none⟩
  else if startsWith remainder "WHERE " then
    let wherePart := trim (trimStartMatches remainder "WHERE ")
    let (condition, _) ← ofOption (splitOnce "RETURN " wherePart)
      (syntaxError "WHERE must end with RETURN")
    return ⟨label, some (← parseIdCondition (trim condition))⟩
  else .error (fail .unsupportedFeature "unsupported MATCH remainder")

def parseRelationshipWeightFilter (query : Text) : Except Failure (Option Schemes.F64) :=
  match splitOnce "WHERE " query with
  | none => .ok none
  | some (_, afterWhere) =>
    let beforeReturn := trim (match splitOnce "RETURN" afterWhere with
      | some (before, _) => before
      | none => afterWhere)
    if beforeReturn.isEmpty then .ok none
    else match stripPrefix beforeReturn "r.weight >" with
      | none => .error (unsupported
          "WHERE in relationship query supports only r.weight > <num>" "WHERE")
      | some raw => match F64.ofText (trim raw) with
        | some value => .ok (some value)
        | none => .error (syntaxError "invalid r.weight numeric value")

/-! ### WITH -/

def parseWithProjection (projection : Text) : Except Failure (Text × Text) :=
  match splitOnce " AS " projection with
  | some (source, alias_) =>
    if (trim source).isEmpty || (trim alias_).isEmpty then
      .error (syntaxError "invalid WITH alias syntax")
    else .ok (trim source, trim alias_)
  | none =>
    if projection.isEmpty then .error (syntaxError "WITH projection is empty")
    else .ok (projection, projection)

/-- A query with a `WITH` that renames the node, as one without. -/
def normalizeWithQuery (query : Text) : Except Failure Text := do
  let (left, right) ← ofOption (splitOnce " WITH " query)
    (fail .unsupportedFeature "WITH clause missing")
  let (projectionCtx, returnExpr) ← ofOption (splitOnce " RETURN " (trim right))
    (fail .unsupportedFeature "WITH requires RETURN")
  let returnExpr := trim returnExpr
  let (sourceVar, projectedVar) ← parseWithProjection (trim projectionCtx)
  if sourceVar ≠ ['n'] then
    .error (unsupported "WITH source variable out of scope" "WITH")
  else if returnExpr = sourceVar ∧ projectedVar ≠ sourceVar then
    .error (unsupported "WITH alias scope violation" "WITH")
  else match Text.stripPrefix returnExpr projectedVar with
    | some rest => return trim left ++ " RETURN ".toList ++ ('n' :: rest)
    | none => .error (unsupported "RETURN expression not available in WITH scope" "WITH")

/-! ### CASE -/

structure CaseExpression where
  condition : Text
  thenExpr : Text
  elseExpr : Text

def parseCaseExpression (caseExpr : Text) : Except Failure CaseExpression := do
  let caseExpr ← ofOption (stripPrefix caseExpr "WHEN ") (syntaxError "CASE requires WHEN")
  let thenIdx ← ofOption (find " THEN " caseExpr) (syntaxError "CASE requires THEN")
  let elseIdx ← ofOption (find " ELSE " caseExpr) (syntaxError "CASE requires ELSE")
  let endIdx ← ofOption (Text.rfind " END".toList caseExpr) (syntaxError "CASE requires END")
  if elseIdx ≤ thenIdx ∨ endIdx ≤ elseIdx then
    .error (syntaxError "invalid CASE expression order")
  else
    let thenExpr ← ofOption (Text.slice caseExpr (thenIdx + 6) elseIdx) .panic
    let elseExpr ← ofOption (Text.slice caseExpr (elseIdx + 6) endIdx) .panic
    return ⟨trim (caseExpr.take thenIdx), trim thenExpr, trim elseExpr⟩

def evaluateCaseCondition (condition : Text) : Except Failure Bool := do
  let (left, right) ← ofOption (splitOnce "=" condition)
    (syntaxError "CASE condition must be equality")
  let leftValue ← parseValue (trim left)
  let rightValue ← parseValue (trim right)
  return leftValue.eq rightValue

/-! ### UNION -/

inductive UnionMode where
  | distinct
  | all
  deriving DecidableEq

/-- Where the scan of a query for top-level unions is. -/
structure UnionScan where
  /-- The character before. -/
  prev : Option Char
  /-- How many characters of a keyword and of the blanks after it are still to be passed. -/
  skip : ℕ
  depth : ℕ
  inSingleQuote : Bool
  /-- The branch so far, its last character first. -/
  branch : Text
  branches : List Text
  mode : Option UnionMode

def UnionScan.start : UnionScan := ⟨none, 0, 0, false, [], [], none⟩

/-- The scan after a character that belongs to the branch. -/
def UnionScan.push (st : UnionScan) (c : Char) : UnionScan :=
  { st with prev := some c, branch := c :: st.branch }

/-- The keyword at the start of the text, if a blank or the end follows it. -/
def unionKeyword (s : Text) : Option (UnionMode × ℕ) :=
  let boundary (n : ℕ) := (s.drop n).head?.all isWhitespace
  if startsWith (upper s) "UNION ALL" && boundary 9 then some (.all, 9)
  else if startsWith (upper s) "UNION" && boundary 5 then some (.distinct, 5)
  else none

/-- The keyword at a place where one may stand: at the start, or after a blank. -/
def keywordAt (prev : Option Char) (s : Text) : Option (UnionMode × ℕ) :=
  if prev.all isWhitespace then unionKeyword s else none

def nextDepth (depth : ℕ) (c : Char) : ℕ :=
  if c = '(' || c = '[' || c = '{' then depth + 1
  else if c = ')' || c = ']' || c = '}' then depth - 1
  else depth

/-- The scan at the end of the query. -/
def UnionScan.finish (st : UnionScan) : Option (List Text × UnionMode) :=
  let tail := trim st.branch.reverse
  if st.branches.isEmpty || tail.isEmpty then none
  else st.mode.map fun mode => (st.branches ++ [tail], mode)

/-- The scan outside of brackets and quotes tests every byte for a keyword, also those inside of a
    character: that is where it panics. -/
def scanUnion (st : UnionScan) : Text → Except Failure (Option (List Text × UnionMode))
  | [] => .ok st.finish
  | c :: cs =>
    if st.skip > 0 then scanUnion { st with prev := some c, skip := st.skip - 1 } cs
    else if c = '\'' then
      scanUnion { st.push c with inSingleQuote := !st.inSingleQuote } cs
    else if st.inSingleQuote then scanUnion (st.push c) cs
    else
      let st := { st with depth := nextDepth st.depth c }
      if st.depth = 0 then
        match keywordAt st.prev (c :: cs) with
        | some (mode, length) =>
          let branch := trim st.branch.reverse
          if branch.isEmpty || st.mode.any (· ≠ mode) then .ok none
          else
            let blanks := (((c :: cs).drop length).takeWhile isWhitespace).length
            scanUnion { st with
              prev := some c, skip := length - 1 + blanks, branch := [],
              branches := st.branches ++ [branch], mode := some mode } cs
        | none => if 128 ≤ c.toNat then .error .panic else scanUnion (st.push c) cs
      else scanUnion (st.push c) cs

/-- The branches of a query that is a union at its top level. -/
def splitTopLevelUnion (query : Text) : Except Failure (Option (List Text × UnionMode)) :=
  scanUnion .start query

/-! ### Subqueries and calls -/

/-- What stands before and after the brace that closes a subquery. -/
def splitSubqueryBody (depth : ℕ) (inSingleQuote : Bool) : Text → Option (Text × Text)
  | [] => none
  | c :: cs =>
    let consed (p : Text × Text) := (c :: p.1, p.2)
    if c = '\'' then (splitSubqueryBody depth (!inSingleQuote) cs).map consed
    else if inSingleQuote then (splitSubqueryBody depth inSingleQuote cs).map consed
    else if c = '{' then (splitSubqueryBody (depth + 1) inSingleQuote cs).map consed
    else if c = '}' then
      if depth - 1 = 0 then some ([], cs)
      else (splitSubqueryBody (depth - 1) inSingleQuote cs).map consed
    else (splitSubqueryBody depth inSingleQuote cs).map consed

def subqueryBody (body : Text) : Except Failure (Text × Text) :=
  ofOption (splitSubqueryBody 1 false body) (syntaxError "invalid subquery body")

/-- The arguments of a call: commas inside of brackets do not separate. -/
def callArgs (depth : ℤ) (arg : Text) : Text → List Text
  | [] => if arg.isEmpty then [] else [trim arg.reverse]
  | c :: cs =>
    if c = ',' ∧ depth = 0 then trim arg.reverse :: callArgs depth [] cs
    else callArgs (if c = '[' then depth + 1 else if c = ']' then depth - 1 else depth)
      (c :: arg) cs

def splitCallArgs (raw : Text) : List Text := (callArgs 0 [] raw).filter fun s => !s.isEmpty

/-! ### The dialect -/

/-- The features that the manifest of the compatibility dialect has as unsupported, the longest
    clause first. -/
def unsupportedFeatures : List String :=
  ["pattern comprehension", "variable-length path", "shortestPath", "LOAD CSV", "FOREACH"]

def featureMatchesQuery (query : Text) (clause : String) : Bool :=
  let compact := upper query
  let has := contains compact
  match clause with
  | "FOREACH" => has "FOREACH "
  | "shortestPath" => has "SHORTESTPATH("
  | "variable-length path" => (has "-[*" || has "[*") && !has "SHORTESTPATH("
  | "pattern comprehension" =>
    (has "RETURN [" || has "WITH [" || has "= [") && has "|" && has "]"
  | "LOAD CSV" => has "LOAD CSV"
  | _ => false

def rejectNeo4jCompatExtension (query : Text) : Option Failure :=
  (unsupportedFeatures.find? (featureMatchesQuery query)).map fun clause =>
    unsupported ("unsupported cypher extension for Neo4j compat baseline: " ++ clause) clause

end AiraGraphdb.Library.Query
