import AiraGraphdb.Library.Query.Parse

/-! # Running a query

A clause reads its text first and touches the graph last, so what it does to the graph is one
operation of the store or none. The graph is kept when a query fails, with what was done to it
before. A query inside of a query is run by the parameter `run` of a clause; `execute` supplies
itself for it, with a bound on the nesting that the length of the query always satisfies
(`executeQueryWithDialect_eq`). The text that the program prints for a double is a parameter. -/

namespace AiraGraphdb.Library.Query

open Schemes InMemoryGraphStore
open Library.Connections (CypherDialect)

inductive QueryResult where
  | nodes (nodes : List GraphNode)
  | table (columns : List String) (rows : List (List Value))
  | ack

/-- What the program takes from the standard library for doubles, beyond arithmetic: their text,
    and the smaller and the larger of two, where the sign of a zero is not specified. -/
structure FloatStd where
  toText : Schemes.F64 → String
  min : Schemes.F64 → Schemes.F64 → Schemes.F64
  max : Schemes.F64 → Schemes.F64 → Schemes.F64

/-- A clause on a graph: the graph after it, and its result. -/
abbrev Step := InMemoryGraphStore × Except Failure QueryResult

/-- A clause that only reads. -/
def reads (g : InMemoryGraphStore) (r : Except Failure QueryResult) : Step := (g, r)

/-- A clause whose text is read before it touches the graph. -/
def parsed {α : Type} (g : InMemoryGraphStore) (p : Except Failure α) (k : α → Step) : Step :=
  match p with
  | .ok a => k a
  | .error e => (g, .error e)

/-- The numbers of an integer and of a double. -/
def number? : Value → Option Schemes.F64
  | .int64 n => some (Schemes.F64.ofInt n.toInt)
  | .float64 x => some x.ieee
  | _ => none

def ofIeee (x : Schemes.F64) : Value := .float64 ⟨x.bits⟩

/-! ### Reading clauses -/

section Reading

variable (order : HashOrder) (g : InMemoryGraphStore)

def executeMatch (query : Text) : Except Failure QueryResult := do
  let compact := trim query
  if !startsWith compact "MATCH " || !contains compact "RETURN " then
    .error (unsupported "unsupported MATCH form" "MATCH")
  else
    let filters ← parseMatchFilters compact
    let nodes := (listNodes order g).filter fun node =>
      filters.label.all (fun l => decide (l ∈ node.labels)) && filters.id.all (node.id = ·)
    let modifiers ← parseReturnModifiers compact
    return .nodes (modifiers.apply nodes)

def executeOptionalMatch (query : Text) : Except Failure QueryResult :=
  executeMatch order g (Text.replaceFirst query "OPTIONAL MATCH".toList "MATCH".toList)

/-- The weight of an edge, zero when it has none that is a number. -/
def edgeWeight (edge : GraphEdge) : Schemes.F64 :=
  (edge.properties["weight"]?.bind number?).getD .zero

/-- The edges that a relationship query looks at. -/
def relationshipEdges (weightFilter : Option Schemes.F64) : List GraphEdge :=
  (listEdges order g).filter fun edge =>
    weightFilter.all fun minWeight => !(edgeWeight edge).le minWeight

def missingEndpoint (message : String) : Failure := fail .referentialIntegrityViolation message

/-- The two ends of an edge. -/
def edgeEnds (edge : GraphEdge) : Except Failure (GraphNode × GraphNode) := do
  let source ← ofOption (g.getNode edge.src) (missingEndpoint "missing edge source node")
  let target ← ofOption (g.getNode edge.dst) (missingEndpoint "missing edge target node")
  return (source, target)

def relationshipRow (n r m : String) : List Value := [.string n, .string r, .string m]

def buildRelationshipRows (directed optional : Bool) (weightFilter : Option Schemes.F64) :
    Except Failure (List (List Value)) := do
  let matched ← (relationshipEdges order g weightFilter).mapM fun edge => do
    let (source, target) ← edgeEnds g edge
    return (source.id, edge.id, target.id)
  let rows := matched.flatMap fun (source, edge, target) =>
    if directed then [relationshipRow source edge target]
    else [relationshipRow source edge target, relationshipRow target edge source]
  let isMatched (id : String) : Bool := matched.any fun (source, _, target) =>
    id = source || (!directed && id = target)
  let unmatched := (listNodes order g).filter fun node => !isMatched node.id
  return if optional then rows ++ unmatched.map fun node => relationshipRow node.id "NULL" "NULL"
    else rows

def rowKey : List Value → String
  | .string v :: _ => v
  | _ => ""

def applyTableModifiers (rows : List (List Value)) (query : Text) :
    Except Failure (List (List Value)) := do
  let modifiers ← parseReturnModifiers query
  let sorted := rows.mergeSort fun a b => decide (rowKey a ≤ rowKey b)
  return modifiers.apply (if modifiers.orderBy then sorted else rows)

def executeMatchRelationship (query : Text) (optional : Bool) : Except Failure QueryResult := do
  if !contains query "RETURN n,r,m" then
    .error (unsupported "relationship query must return n,r,m" "MATCH")
  else if !contains query "-[r]->(" && !contains query "-[r]-(" then
    .error (unsupported "unsupported relationship pattern" "MATCH")
  else
    let directed := contains query "-[r]->("
    let weightFilter ← parseRelationshipWeightFilter query
    let rows ← buildRelationshipRows order g directed optional weightFilter
    return .table ["n", "r", "m"] (← applyTableModifiers rows query)

end Reading

section Expressions

variable (std : FloatStd)

def executeReturnExpression (query : Text) : Except Failure QueryResult :=
  match stripPrefix (trim (trimStartMatches query "RETURN ")) "CASE " with
  | none => .error (unsupported "unsupported RETURN expression" "RETURN")
  | some caseExpr => do
    let parts ← parseCaseExpression caseExpr
    let value ← if ← evaluateCaseCondition parts.condition then parseValue parts.thenExpr
      else parseValue parts.elseExpr
    return .table ["case"] [[value]]

def valueAsF64 (value : Value) : Except Failure Schemes.F64 :=
  ofOption (number? value) (unsupported "aggregation requires numeric values" "UNWIND")

def sum (xs : List Schemes.F64) : Schemes.F64 := xs.foldl Schemes.F64.add .negZero

/-- The extreme of the values, zero when it is not finite. -/
def extreme (pick : Schemes.F64 → Schemes.F64 → Schemes.F64) (start : Schemes.F64)
    (xs : List Schemes.F64) : Schemes.F64 :=
  if (xs.foldl pick start).isFinite then xs.foldl pick start else .zero

def aggregate (var projection : Text) (values : List Value) : Except Failure QueryResult := do
  let applied (name : String) : Text := name.toList ++ ('(' :: var ++ [')'])
  let single (column : String) (value : Value) : QueryResult := .table [column] [[value]]
  if projection = applied "count" then
    return single "count" (.int64 (Int64.ofNat values.length))
  if projection = applied "collect" then return .table ["collect"] [values]
  let numeric ← values.mapM valueAsF64
  if projection = applied "sum" then return single "sum" (ofIeee (sum numeric))
  if projection = applied "avg" then
    return single "avg" (ofIeee (if numeric.isEmpty then .zero
      else (sum numeric).div (Schemes.F64.ofInt numeric.length)))
  if projection = applied "min" then
    return single "min" (ofIeee (extreme std.min .infinity numeric))
  if projection = applied "max" then
    return single "max" (ofIeee (extreme std.max .negInfinity numeric))
  if projection = var then return .table [String.ofList var] (values.map fun v => [v])
  .error (unsupported "unsupported UNWIND projection" "UNWIND")

def executeUnwind (query : Text) : Except Failure QueryResult := do
  let content ← ofOption (stripPrefix (trim query) "UNWIND ")
    (fail .unsupportedFeature "unsupported UNWIND form")
  let (listPart, rest) ← ofOption (splitOnce " AS " content)
    (fail .unsupportedFeature "UNWIND requires AS variable")
  let (var, projection) ← ofOption (splitOnce " RETURN " (trim rest))
    (fail .unsupportedFeature "UNWIND requires RETURN")
  aggregate std (trim var) (trim projection) (← parseListValues (trim listPart))

end Expressions

/-! ### Writing clauses -/

section Writing

variable (order : HashOrder) (g : InMemoryGraphStore)

/-- The graph after a node was created and changed, or a panic where its counter overflows. -/
def created (labels : List String) (props : Properties)
    (k : InMemoryGraphStore → GraphNode → Step) : Step :=
  match g.createNode labels props with
  | some (g', node) => k g' node
  | none => (g, .error .panic)

def executeCreate (query : Text) : Step :=
  if !startsWith query "CREATE (" || !Text.endsWith query [')'] then
    (g, .error (syntaxError "invalid CREATE syntax"))
  else
    parsed g (parseCreateOrMergePayload query "CREATE ") fun (label, props) =>
      created g [label] props fun g' _ => (g', .ok .ack)

/-- One property of a stored node set to a value. -/
def setProperty (nodeId key : String) (value : Value) (missing : String) : Step :=
  match g.getNodeMut nodeId fun node =>
      { node with properties := node.properties.insert key value } with
  | some g' => (g', .ok .ack)
  | none => (g, .error (fail .referentialIntegrityViolation missing))

/-- The `SET` that a merge has for what it did, if any. -/
def mergeSet (tail : Text) (marker nodeId missing : String) : Step :=
  parsed g (parseMergeSetClause tail marker) fun
    | some (key, value) => setProperty g nodeId key value missing
    | none => (g, .ok .ack)

def executeMerge (query : Text) : Step :=
  if !startsWith query "MERGE (" then
    (g, .error (unsupported "unsupported MERGE form" "MERGE"))
  else
    parsed g (splitPatternAndTail query "MERGE ") fun (patternPart, tail) =>
      parsed g (parseCreateOrMergePayload patternPart "MERGE ") fun (label, props) =>
        match findNodeByLabelAndProps order g (some label) props with
        | some existing => mergeSet g tail "ON MATCH SET" existing.id "MERGE target missing"
        | none => created g [label] props fun g' node =>
          mergeSet g' tail "ON CREATE SET" node.id "MERGE create target missing"

/-- The two words after `NODE`: a node and what is to be done to it. -/
def nodeArguments (content : Text) (clause noId noRest : String) : Except Failure (Text × Text) :=
  match content.splitOn ' ' with
  | [] | [_] => .error (fail .unsupportedFeature (clause ++ noId))
  | [_, _] => .error (fail .unsupportedFeature (clause ++ noRest))
  | _ :: nodeId :: rest => .ok (nodeId, [' '].intercalate rest)

def executeSet (query : Text) : Step :=
  let content := trim (trimStartMatches query "SET ")
  if !startsWith content "NODE " then
    (g, .error (unsupported "unsupported SET form" "SET"))
  else
    parsed g (do
      let (nodeId, assignment) ← nodeArguments content "SET NODE requires " "node id"
        "key=value assignment"
      return (String.ofList nodeId, ← parseAssignment assignment))
      fun (nodeId, key, value) =>
        setProperty g nodeId key value "SET NODE target does not exist"

def executeRemove (query : Text) : Step :=
  let content := trim (trimStartMatches query "REMOVE ")
  if !startsWith content "NODE " then
    (g, .error (unsupported "unsupported REMOVE form" "REMOVE"))
  else
    parsed g (nodeArguments content "REMOVE NODE requires " "node id" "property key")
      fun (nodeId, key) =>
        let key := (stripPrefix (trim key) "n.").getD key
        match g.getNodeMut (String.ofList nodeId) fun node =>
            { node with properties := node.properties.erase (String.ofList key) } with
        | some g' => (g', .ok .ack)
        | none => (g, .error (fail .referentialIntegrityViolation
            "REMOVE NODE target does not exist"))

def executeDelete (query : Text) : Step :=
  match words query with
  | delete :: node :: nodeId :: rest =>
    if delete ≠ "DELETE".toList ∨ node ≠ "NODE".toList then
      (g, .error (unsupported "unsupported DELETE form" "DELETE"))
    else
      let nodeId := String.ofList nodeId
      let detach := decide (rest.head? = some "DETACH".toList)
      if !g.hasNode nodeId then (g, .ok .ack)
      else if !(edgesTouchingNode order g nodeId).isEmpty && !detach then
        (g, .error (fail .referentialIntegrityViolation
          "node is still referenced by edges; use DETACH"))
      else if detach then (deleteNodeDetach order g nodeId, .ok .ack)
      else (g.deleteNode nodeId, .ok .ack)
  | _ => (g, .error (unsupported "unsupported DELETE form" "DELETE"))

end Writing

/-! ### Procedures -/

section Procedures

variable (std : FloatStd) (g : InMemoryGraphStore)

def allowedProcedures : List String :=
  ["apoc.meta.schema", "apoc.coll.toSet", "apoc.text.join", "apoc.refactor.rename.label"]

/-- Two values print the same for a debugger: the same value, or two NaNs. -/
def sameDebug (v w : Value) : Bool :=
  match v, w with
  | .float64 x, .float64 y => x = y || (x.ieee.isNan && y.ieee.isNan)
  | _, _ => v = w

/-- The elements that are the first ones of their kind. -/
def retainFirst {α : Type} (same : α → α → Bool) (xs : List α) : List α :=
  xs.foldl (fun kept x => if kept.any (same x) then kept else kept ++ [x]) []

def valueText : Value → String
  | .string s => s
  | .int64 n => toString n.toInt
  | .float64 x => std.toText x.ieee
  | .bool b => if b then "true" else "false"
  | .bytes _ => "<bytes>"

def stringArgument (raw : Text) (message : String) : Except Failure String := do
  match ← parseValue raw with
  | .string s => return s
  | _ => .error (fail .invalidArgument message)

/-- The arguments of a call that takes two. -/
def twoArguments (argsRaw : Text) (message : String) : Except Failure (Text × Text) :=
  match splitCallArgs argsRaw with
  | [a, b] => .ok (a, b)
  | _ => .error (fail .invalidArgument message)

def textJoin (argsRaw : Text) : Except Failure QueryResult := do
  let (list, delimiter) ← twoArguments argsRaw "apoc.text.join requires values, delimiter"
  let values ← parseListValues list
  let delim ← stringArgument delimiter "delimiter must be string"
  return .table ["value"] [[.string (delim.intercalate (values.map (valueText std)))]]

/-- The labels of a renaming. -/
def renameArguments (argsRaw : Text) : Except Failure (String × String) := do
  let (old, new) ← twoArguments argsRaw "apoc.refactor.rename.label requires from,to"
  let old ← stringArgument old "from must be string"
  let new ← stringArgument new "to must be string"
  if (trim old.toList).isEmpty || (trim new.toList).isEmpty then
    .error (fail .invalidArgument "from/to must not be empty")
  else return (old, new)

/-- The name and the arguments of a call. -/
def parseCall (query : Text) : Except Failure (Text × Text) := do
  let call ← ofOption (stripPrefix query "CALL ") (syntaxError "invalid CALL syntax")
  let call := trim call
  let opening ← ofOption (find "(" call) (syntaxError "CALL requires (")
  let closing ← ofOption (Text.rfind [')'] call) (syntaxError "CALL requires )")
  if closing ≤ opening then .error (syntaxError "invalid CALL argument list")
  else return (trim (call.take opening), trim ((call.take closing).drop (opening + 1)))

def executeCall (query : Text) : Step :=
  parsed g (parseCall query) fun (name, argsRaw) =>
    if String.ofList name ∉ allowedProcedures then
      (g, .error (unsupported ("unsupported procedure: " ++ String.ofList name) "CALL"))
    else match String.ofList name with
    | "apoc.meta.schema" =>
      (g, .ok (.table ["nodes", "relationships"]
        [[.int64 (Int64.ofNat g.nodeCount), .int64 (Int64.ofNat g.edgeCount)]]))
    | "apoc.coll.toSet" =>
      (g, (parseListValues argsRaw).map fun values =>
        .table ["values"] [retainFirst sameDebug values])
    | "apoc.text.join" => (g, textJoin std argsRaw)
    | "apoc.refactor.rename.label" =>
      parsed g (renameArguments argsRaw) fun (old, new) =>
        ((g.renameLabel old new).1, .ok (.table ["updatedNodeCount"]
          [[.int64 (Int64.ofNat (g.renameLabel old new).2)]]))
    | other =>
      (g, .error (unsupported ("unsupported procedure: " ++ other) "CALL"))

end Procedures

/-! ### Queries in queries -/

section Nested

variable (run : InMemoryGraphStore → Text → Step)

/-- The rows of the branches so far; the branches of one union have one kind of result. -/
inductive UnionRows where
  | none
  | nodes (rows : List GraphNode)
  | table (columns : List String) (rows : List (List Value))

def unionError (message : String) : Failure := unsupported message "UNION"

def UnionRows.extend : UnionRows → QueryResult → Except Failure UnionRows
  | _, .ack => .error (unionError "UNION does not support ACK branches")
  | .table .., .nodes _ => .error (unionError "UNION branch result kinds must match")
  | .nodes _, .table .. => .error (unionError "UNION branch result kinds must match")
  | .none, .nodes rows => .ok (.nodes rows)
  | .none, .table columns rows => .ok (.table columns rows)
  | .nodes rows, .nodes more => .ok (.nodes (rows ++ more))
  | .table columns rows, .table columns' more =>
    if columns ≠ columns' then .error (unionError "UNION branch columns must match")
    else .ok (.table columns (rows ++ more))

def rowsEq (a b : List Value) : Bool :=
  decide (a.length = b.length) && (a.zip b).all fun p => p.1.eq p.2

def UnionRows.result (mode : UnionMode) : UnionRows → Except Failure QueryResult
  | .none => .error (unionError "UNION requires at least one branch")
  | .nodes rows => .ok (.nodes (match mode with
    | .distinct => retainFirst (fun a b => decide (a.id = b.id)) rows
    | .all => rows))
  | .table columns rows => .ok (.table columns (match mode with
    | .distinct => retainFirst rowsEq rows
    | .all => rows))

/-- The branches one after the other, on the graph that the ones before left. -/
def executeUnionBranches (mode : UnionMode) :
    List Text → UnionRows → InMemoryGraphStore → Step
  | [], rows, g => (g, rows.result mode)
  | branch :: branches, rows, g =>
    match run g branch with
    | (g', .error e) => (g', .error e)
    | (g', .ok result) => match rows.extend result with
      | .error e => (g', .error e)
      | .ok rows' => executeUnionBranches mode branches rows' g'

def executeUnionQuery (g : InMemoryGraphStore) (branches : List Text) (mode : UnionMode) : Step :=
  executeUnionBranches run mode branches .none g

def subqueryRowCount : QueryResult → Except Failure ℕ
  | .nodes nodes => .ok nodes.length
  | .table _ rows => .ok rows.length
  | .ack => .error (unsupported "subquery must produce rows" "CALL \x7b")

/-- The inner query of a call, and what is returned of it. -/
def parseCallSubquery (query : Text) : Except Failure (Text × Text) := do
  let call ← ofOption (stripPrefix query "CALL \x7b") (syntaxError "invalid CALL subquery syntax")
  let (innerQuery, tail) ← subqueryBody call
  let projection ← ofOption (stripPrefix (Text.trimStart isWhitespace tail) "RETURN ")
    (unsupported "CALL subquery requires RETURN" "CALL \x7b")
  return (trim innerQuery, trim projection)

def projectSubquery (projection : Text) (result : QueryResult) : Except Failure QueryResult :=
  if projection = "count(*)".toList then
    (subqueryRowCount result).map fun n => .table ["count"] [[.int64 (Int64.ofNat n)]]
  else if projection = ['*'] then .ok result
  else .error (unsupported "unsupported CALL subquery projection" "CALL \x7b")

def executeCallSubquery (g : InMemoryGraphStore) (query : Text) : Step :=
  parsed g (parseCallSubquery query) fun (innerQuery, projection) =>
    match run g innerQuery with
    | (g', .error e) => (g', .error e)
    | (g', .ok result) => (g', projectSubquery projection result)

/-- The outer match of an existence test, its inner query, and the match without the test. -/
structure ExistsSubquery where
  innerQuery : Text
  rewritten : Text

def parseExistsSubquery (query : Text) : Except Failure ExistsSubquery := do
  let (outer, afterMarker) ← ofOption (splitOnce " WHERE EXISTS \x7b" query)
    (syntaxError "invalid EXISTS subquery syntax")
  let (innerQuery, tail) ← subqueryBody afterMarker
  return ⟨trim innerQuery, trim outer ++ (' ' :: Text.trimStart isWhitespace tail)⟩

/-- The inner query runs on a copy of the graph. -/
def executeExistsSubqueryMatch (order : HashOrder) (g : InMemoryGraphStore) (query : Text) :
    Except Failure QueryResult := do
  let parts ← parseExistsSubquery query
  let innerResult ← (run g parts.innerQuery).2
  if (← subqueryRowCount innerResult) = 0 then return .nodes []
  executeMatch order g parts.rewritten

end Nested

/-! ### The engine -/

section Engine

variable (std : FloatStd) (order : HashOrder)

/-- A match without a `WITH` that only repeats what is returned. -/
def withoutTableWith (q : Text) : Text :=
  if startsWith q "MATCH " || startsWith q "OPTIONAL MATCH " then
    Text.replaceFirst q " WITH n,r,m RETURN n,r,m".toList " RETURN n,r,m".toList
  else q

/-- The query with its `WITH` clauses rewritten away. -/
def withoutWith (query : Text) : Except Failure Text :=
  let q := withoutTableWith query
  if (startsWith q "MATCH " || startsWith q "OPTIONAL MATCH ") && contains q " WITH " then
    normalizeWithQuery q
  else .ok q

def isRelationship (q : Text) : Bool := contains q "-[r]->(" || contains q "-[r]-("

def unsupportedClause (q : Text) : Failure :=
  unsupported "unsupported cypher clause for openCypher 9 profile"
    (((words q).head?.map String.ofList).getD "UNKNOWN")

/-- A query without unions and rewritings, by its first words. -/
def executeClause (run : InMemoryGraphStore → Text → Step) (g : InMemoryGraphStore) (q : Text) :
    Step :=
  if startsWith q "MATCH " && contains q " WHERE EXISTS \x7b" then
    (g, executeExistsSubqueryMatch run order g q)
  else if startsWith q "MATCH " then
    (g, if isRelationship q then executeMatchRelationship order g q false
      else executeMatch order g q)
  else if startsWith q "OPTIONAL MATCH " then
    (g, if isRelationship q then executeMatchRelationship order g q true
      else executeOptionalMatch order g q)
  else if startsWith q "UNWIND " then (g, executeUnwind std q)
  else if startsWith q "CREATE " then executeCreate g q
  else if startsWith q "MERGE " then executeMerge order g q
  else if startsWith q "DELETE " then executeDelete order g q
  else if startsWith q "SET " then executeSet g q
  else if startsWith q "REMOVE " then executeRemove g q
  else if startsWith q "CALL " then executeCall std g q
  else (g, .error (unsupportedClause q))

def executeTrimmed (run : InMemoryGraphStore → Text → Step) (g : InMemoryGraphStore) (q : Text)
    (dialect : CypherDialect) : Step :=
  match if dialect = .neo4jCompat then rejectNeo4jCompatExtension q else none with
  | some e => (g, .error e)
  | none => parsed g (splitTopLevelUnion q) fun
    | some (branches, mode) => executeUnionQuery run g branches mode
    | none =>
      if startsWith q "RETURN " then (g, executeReturnExpression q)
      else if startsWith q "CALL \x7b" then executeCallSubquery run g q
      else parsed g (withoutWith q) (executeClause std order run g)

/-- A query whose nesting is below the bound. -/
def execute (dialect : CypherDialect) : ℕ → InMemoryGraphStore → Text → Step
  | 0, g, _ => (g, .error .panic)
  | n + 1, g, query => executeTrimmed std order (execute dialect n) g (trim query) dialect

def executeQueryWithDialect (g : InMemoryGraphStore) (query : Text) (dialect : CypherDialect) :
    Step :=
  execute std order dialect (query.length + 1) g query

end Engine

end AiraGraphdb.Library.Query
