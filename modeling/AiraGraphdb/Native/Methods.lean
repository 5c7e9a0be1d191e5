import AiraGraphdb.Schemes.Bytes

/-! # The methods of the native server and its errors

One table says what every method is: its class, whether it is a mutation that goes through the log,
and which wire limits it has. -/

namespace AiraGraphdb.Native

/-! ### Errors -/

inductive FailureClass where
  | clientInput
  | ioFailure
  deriving DecidableEq

structure AppError where
  code : String
  message : String
  failureClass : FailureClass
  deriving DecidableEq

def executionClientError (message : String) : AppError :=
  ⟨"REQUEST_EXECUTION_FAILED", message, .clientInput⟩

def executionIoError (message : String) : AppError :=
  ⟨"REQUEST_EXECUTION_FAILED", message, .ioFailure⟩

def unsupportedMethodError (method : String) : AppError :=
  ⟨"UNSUPPORTED_FEATURE", "unsupported_method:" ++ method, .clientInput⟩

/-! ### Methods -/

inductive Classification where
  | health
  | transaction
  | commit
  | recovery
  | mutation
  | read
  | debug
  deriving DecidableEq

inductive MethodWireProfile where
  | normal
  | boundedIndexing
  deriving DecidableEq

structure MethodSpec where
  name : String
  classification : Classification
  wal : Bool
  wireProfile : MethodWireProfile

def methodSpecs : List MethodSpec := [
  ⟨"ping", .health, false, .normal⟩,
  ⟨"protocol_info", .health, false, .normal⟩,
  ⟨"blob_lineage", .health, false, .normal⟩,
  ⟨"batch_begin", .transaction, false, .normal⟩,
  ⟨"batch_prepare_commit", .transaction, false, .normal⟩,
  ⟨"batch_commit", .commit, false, .normal⟩,
  ⟨"recovery_discard", .recovery, false, .normal⟩,
  ⟨"upsert_nodes", .mutation, true, .normal⟩,
  ⟨"upsert_edges", .mutation, true, .normal⟩,
  ⟨"get_node", .read, false, .normal⟩,
  ⟨"get_nodes", .read, false, .normal⟩,
  ⟨"get_edges", .read, false, .normal⟩,
  ⟨"get_adjacent", .read, false, .normal⟩,
  ⟨"delete_nodes", .mutation, true, .normal⟩,
  ⟨"delete_edges", .mutation, true, .normal⟩,
  ⟨"delete_by_document", .mutation, true, .normal⟩,
  ⟨"delete_by_corpus", .mutation, true, .normal⟩,
  ⟨"vector_upsert", .mutation, true, .normal⟩,
  ⟨"vector_search", .read, false, .normal⟩,
  ⟨"vector_delete_by_document", .mutation, true, .normal⟩,
  ⟨"memory_upsert", .mutation, true, .boundedIndexing⟩,
  ⟨"memory_save", .mutation, true, .normal⟩,
  ⟨"memory_save_file", .mutation, true, .normal⟩,
  ⟨"memory_load", .read, false, .normal⟩,
  ⟨"memory_get_schemas_by_ids", .read, false, .boundedIndexing⟩,
  ⟨"memory_get_active_facts", .read, false, .boundedIndexing⟩,
  ⟨"memory_get_passages_by_ids", .read, false, .boundedIndexing⟩,
  ⟨"memory_get_facts_by_ids", .read, false, .boundedIndexing⟩,
  ⟨"memory_find_facts_by_entities", .read, false, .boundedIndexing⟩,
  ⟨"memory_section_counts", .read, false, .boundedIndexing⟩,
  ⟨"memory_activate_facts_by_schema_ids", .mutation, true, .boundedIndexing⟩,
  ⟨"memory_delete_document", .mutation, true, .boundedIndexing⟩,
  ⟨"memory_save_checkpoint", .mutation, true, .normal⟩,
  ⟨"memory_load_checkpoint", .read, false, .normal⟩,
  ⟨"memory_validate_integrity", .read, false, .normal⟩,
  ⟨"projection_get_transitions", .read, false, .normal⟩,
  ⟨"projection_get_transitions_page", .read, false, .boundedIndexing⟩,
  ⟨"projection_get_dangling_nodes", .read, false, .normal⟩,
  ⟨"projection_get_node_count", .read, false, .normal⟩,
  ⟨"lexical_index_passages", .mutation, true, .normal⟩,
  ⟨"lexical_search", .read, false, .normal⟩,
  ⟨"lexical_delete_by_document", .mutation, true, .normal⟩,
  ⟨"cypher_query", .read, false, .normal⟩,
  ⟨"__debug_force_panic__", .debug, false, .normal⟩]

def methodSpec (method : String) : Option MethodSpec :=
  methodSpecs.find? fun spec => spec.name == method

def isMutatingMethod (method : String) : Bool := (methodSpec method).any (·.wal)

def isIndexingMemoryMethod (method : String) : Bool :=
  (methodSpec method).any fun spec => spec.wireProfile == .boundedIndexing

/-- A mutating method is one of the sixteen of the table. -/
theorem isMutatingMethod_iff {method : String} : isMutatingMethod method = true ↔
    method ∈ (methodSpecs.filter (·.wal)).map (·.name) := by
  constructor
  · intro h
    simp only [isMutatingMethod, Option.any_eq_true] at h
    obtain ⟨spec, hs, hw⟩ := h
    have hn : spec.name = method := by simpa using List.find?_some hs
    exact List.mem_map.mpr ⟨spec, List.mem_filter.mpr ⟨List.mem_of_find?_eq_some hs, hw⟩, hn⟩
  · intro h
    have key : ∀ m ∈ (methodSpecs.filter (·.wal)).map (·.name), isMutatingMethod m = true := by
      decide
    exact key method h

end AiraGraphdb.Native
