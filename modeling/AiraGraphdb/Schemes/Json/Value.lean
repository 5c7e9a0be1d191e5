import AiraGraphdb.Schemes.Json.Syntax

/-! # JSON values

A value is a document with its strings and numbers read. An object is a list of members; a reader
that keeps its members in a map sorts them by key and lets a later member replace an earlier one
(`insertKey`). `Normal` values are those a map-keeping reader produces, and they survive being
printed and read: `ofRaw_raw`. The reader goes only so deep: what nests deeper than its limit is
refused (`ofRaw_deep`). -/

namespace Schemes.Json

inductive Value where
  | null
  | bool (b : Bool)
  | num (n : Number)
  | str (s : String)
  | arr (items : List Value)
  | obj (members : List (String × Value))

/-! ### Objects as sorted lists -/

section Members

variable {α : Type}

/-- The members with `k` set to `v`, in the order of the keys. -/
def insertKey (k : String) (v : α) : List (String × α) → List (String × α)
  | [] => [(k, v)]
  | (k', v') :: ms =>
    if k = k' then (k, v) :: ms
    else if k < k' then (k, v) :: (k', v') :: ms
    else (k', v') :: insertKey k v ms

/-- The members without `k`. -/
def removeKey (k : String) (ms : List (String × α)) : List (String × α) :=
  ms.filter fun m => m.1 ≠ k

def lookupKey (k : String) : List (String × α) → Option α
  | [] => none
  | (k', v) :: ms => if k = k' then some v else lookupKey k ms

/-- The keys rise. -/
def Sorted (ms : List (String × α)) : Prop := ms.Pairwise fun m n => m.1 < n.1

theorem insertKey_last {k : String} {v : α} : ∀ {ms : List (String × α)},
    (∀ m ∈ ms, m.1 < k) → insertKey k v ms = ms ++ [(k, v)]
  | [], _ => rfl
  | (k', v') :: ms, h => by
    have hk : k' < k := h (k', v') (by simp)
    rw [insertKey, if_neg hk.ne', if_neg hk.not_gt,
      insertKey_last fun m hm => h m (by simp [hm])]
    rfl

theorem mem_insertKey {k : String} {v : α} : ∀ {ms : List (String × α)} {m : String × α},
    m ∈ insertKey k v ms → m = (k, v) ∨ m ∈ ms
  | [], m, h => .inl (List.mem_singleton.mp h)
  | (k', v') :: ms, m, h => by
    rw [insertKey] at h
    split_ifs at h
    · rcases List.mem_cons.mp h with h | h
      · exact .inl h
      · exact .inr (by simp [h])
    · rcases List.mem_cons.mp h with h | h
      · exact .inl h
      · exact .inr h
    · rcases List.mem_cons.mp h with h | h
      · exact .inr (by simp [h])
      · rcases mem_insertKey h with h | h
        · exact .inl h
        · exact .inr (by simp [h])

theorem sorted_insertKey {k : String} {v : α} : ∀ {ms : List (String × α)},
    Sorted ms → Sorted (insertKey k v ms)
  | [], _ => by simp [insertKey, Sorted]
  | (k', v') :: ms, h => by
    obtain ⟨hhead, htail⟩ := List.pairwise_cons.mp h
    rw [insertKey]
    split_ifs with h1 h2
    · subst h1
      exact List.pairwise_cons.mpr ⟨hhead, htail⟩
    · refine List.pairwise_cons.mpr ⟨?_, h⟩
      intro m hm
      rcases List.mem_cons.mp hm with rfl | hm
      · exact h2
      · exact h2.trans (hhead m hm)
    · refine List.pairwise_cons.mpr ⟨?_, sorted_insertKey htail⟩
      intro m hm
      rcases mem_insertKey hm with rfl | hm
      · exact lt_of_le_of_ne (not_lt.mp h2) (fun he => h1 he.symm)
      · exact hhead m hm

theorem mem_of_lookupKey {k : String} {v : α} : ∀ {ms : List (String × α)},
    lookupKey k ms = some v → (k, v) ∈ ms
  | (k', v') :: ms, h => by
    rw [lookupKey] at h
    split at h
    · rename_i hk
      cases h
      simp [hk]
    · exact List.mem_cons_of_mem _ (mem_of_lookupKey h)

/-- A member of a sorted object is found. -/
theorem lookupKey_of_mem {map : List (String × α)} (hs : Sorted map) {m : String × α} (h : m ∈ map) :
    lookupKey m.1 map = some m.2 := by
  induction map with
  | nil => cases h
  | cons n map ih =>
    obtain ⟨hhead, htail⟩ := List.pairwise_cons.mp hs
    rcases List.mem_cons.mp h with rfl | h
    · rw [lookupKey, if_pos rfl]
    · rw [lookupKey, if_neg (hhead m h).ne', ih htail h]

/-- An object that has exactly these keys, each with its value, is the list of them. -/
theorem members_eq {map members : List (String × α)} (hmap : Sorted map) (hmembers : Sorted members)
    (hkeys : ∀ m ∈ map, m.1 ∈ members.map Prod.fst)
    (hfound : ∀ m ∈ members, lookupKey m.1 map = some m.2) : map = members := by
  have hsame : ∀ m, m ∈ map ↔ m ∈ members := by
    intro m
    constructor
    · intro hm
      obtain ⟨n, hn, hkey⟩ := List.mem_map.mp (hkeys m hm)
      have hvalue := (hfound n hn).symm.trans (hkey ▸ lookupKey_of_mem hmap hm)
      rw [← Prod.ext hkey (Option.some.inj hvalue)]
      exact hn
    · intro hm
      exact mem_of_lookupKey (hfound m hm)
  have hnodup : ∀ {ms : List (String × α)}, Sorted ms → ms.Nodup := fun hs =>
    hs.imp fun hlt heq => absurd (congrArg Prod.fst heq) hlt.ne
  refine @List.Perm.eq_of_pairwise _ (fun m n : String × α => m.1 < n.1) _ _ ?_ hmap hmembers
    ((List.perm_ext_iff_of_nodup (hnodup hmap) (hnodup hmembers)).mpr hsame)
  intro m n _ _ hmn hnm
  exact absurd hmn hnm.not_gt

end Members

/-! ### To and from the text -/

variable (t : FloatText)

mutual

/-- The document a value is printed as. -/
def Value.raw : Value → Raw
  | .null => .null
  | .bool b => .bool b
  | .num n => .num (n.lexeme t)
  | .str s => .str (escape (utf8 s))
  | .arr vs => .arr (rawItems vs)
  | .obj ms => .obj (rawMembers ms)

def rawItems : List Value → List Raw
  | [] => []
  | v :: vs => v.raw :: rawItems vs

def rawMembers : List (String × Value) → List (Bytes × Raw)
  | [] => []
  | (k, v) :: ms => (escape (utf8 k), v.raw) :: rawMembers ms

end

/-- The compact text of a value. -/
def Value.print (v : Value) : Bytes := (v.raw t).print

mutual

/-- The value of a document that nests at most `limit` arrays and objects. -/
def ofRaw : ℕ → Raw → Option Value
  | _, .null => some .null
  | _, .bool b => some (.bool b)
  | _, .num l => (Number.ofLexeme t l).map .num
  | _, .str s => (stringText s).map .str
  | 0, .arr _ => none
  | limit + 1, .arr vs => (ofRawItems limit vs).map .arr
  | 0, .obj _ => none
  | limit + 1, .obj ms => (ofRawMembers limit [] ms).map .obj

def ofRawItems : ℕ → List Raw → Option (List Value)
  | _, [] => some []
  | limit, v :: vs => do return (← ofRaw limit v) :: (← ofRawItems limit vs)

/-- The members, entered into those seen before. -/
def ofRawMembers : ℕ → List (String × Value) → List (Bytes × Raw) → Option (List (String × Value))
  | _, seen, [] => some seen
  | limit, seen, (k, v) :: ms => do
    ofRawMembers limit (insertKey (← stringText k) (← ofRaw limit v) seen) ms

end

/-! ### Depth and normal form -/

mutual

def Value.depth : Value → ℕ
  | .arr vs => 1 + maxDepth vs
  | .obj ms => 1 + maxMemberDepth ms
  | _ => 0

def maxDepth : List Value → ℕ
  | [] => 0
  | v :: vs => max v.depth (maxDepth vs)

def maxMemberDepth : List (String × Value) → ℕ
  | [] => 0
  | (_, v) :: ms => max v.depth (maxMemberDepth ms)

end

theorem maxDepth_le {d : ℕ} : ∀ {vs : List Value}, maxDepth vs ≤ d ↔ ∀ v ∈ vs, v.depth ≤ d
  | [] => by simp [maxDepth]
  | v :: vs => by simp [maxDepth, maxDepth_le]

theorem maxMemberDepth_le {d : ℕ} : ∀ {ms : List (String × Value)},
    maxMemberDepth ms ≤ d ↔ ∀ m ∈ ms, m.2.depth ≤ d
  | [] => by simp [maxMemberDepth]
  | (k, v) :: ms => by simp [maxMemberDepth, maxMemberDepth_le]

mutual

/-- Every object of the value has its members in the order of their keys, each key once. -/
def Value.Normal : Value → Prop
  | .arr vs => NormalItems vs
  | .obj ms => Sorted ms ∧ NormalMembers ms
  | _ => True

def NormalItems : List Value → Prop
  | [] => True
  | v :: vs => v.Normal ∧ NormalItems vs

def NormalMembers : List (String × Value) → Prop
  | [] => True
  | (_, v) :: ms => v.Normal ∧ NormalMembers ms

end

theorem normalItems_iff : ∀ {vs : List Value}, NormalItems vs ↔ ∀ v ∈ vs, v.Normal
  | [] => by simp [NormalItems]
  | v :: vs => by simp [NormalItems, normalItems_iff]

theorem normalMembers_iff : ∀ {ms : List (String × Value)}, NormalMembers ms ↔ ∀ m ∈ ms, m.2.Normal
  | [] => by simp [NormalMembers]
  | (k, v) :: ms => by simp [NormalMembers, normalMembers_iff]

/-! ### What was printed is read -/

mutual

theorem raw_tokens : ∀ v : Value, (v.raw t).Tokens
  | .null => trivial
  | .bool _ => trivial
  | .num n => fun _ hr => n.lexNumber_lexeme t hr
  | .str s => lexString_escape (utf8 s)
  | .arr vs => rawItems_tokens vs
  | .obj ms => rawMembers_tokens ms

theorem rawItems_tokens : ∀ vs : List Value, TokensItems (rawItems t vs)
  | [] => trivial
  | v :: vs => ⟨raw_tokens v, rawItems_tokens vs⟩

theorem rawMembers_tokens : ∀ ms : List (String × Value), TokensMembers (rawMembers t ms)
  | [] => trivial
  | (k, v) :: ms => ⟨lexString_escape (utf8 k), raw_tokens v, rawMembers_tokens ms⟩

end

theorem parse_value (v : Value) : parse (v.print t) = some (v.raw t) := parse_print _ (raw_tokens t v)

mutual

theorem raw_depth : ∀ v : Value, (v.raw t).depth = v.depth
  | .null => rfl
  | .bool _ => rfl
  | .num _ => rfl
  | .str _ => rfl
  | .arr vs => congrArg (1 + ·) (rawItems_depth vs)
  | .obj ms => congrArg (1 + ·) (rawMembers_depth ms)

theorem rawItems_depth : ∀ vs : List Value, depthItems (rawItems t vs) = maxDepth vs
  | [] => rfl
  | v :: vs => by rw [rawItems, depthItems, maxDepth, raw_depth v, rawItems_depth vs]

theorem rawMembers_depth : ∀ ms : List (String × Value),
    depthMembers (rawMembers t ms) = maxMemberDepth ms
  | [] => rfl
  | (k, v) :: ms => by
    rw [rawMembers, depthMembers, maxMemberDepth, raw_depth v, rawMembers_depth ms]

end

mutual

/-- A normal value that is not too deep is read back from its document. -/
theorem ofRaw_raw : ∀ (v : Value) (limit : ℕ), v.Normal → v.depth ≤ limit →
    ofRaw t limit (v.raw t) = some v
  | .null, _, _, _ => by simp [Value.raw, ofRaw]
  | .bool _, _, _, _ => by simp [Value.raw, ofRaw]
  | .num n, _, _, _ => by simp [Value.raw, ofRaw, Number.ofLexeme_lexeme]
  | .str s, _, _, _ => by simp [Value.raw, ofRaw]
  | .arr vs, 0, _, h => by simp [Value.depth] at h
  | .obj ms, 0, _, h => by simp [Value.depth] at h
  | .arr vs, limit + 1, hn, h => by
    have hd : maxDepth vs ≤ limit := by simp only [Value.depth] at h; omega
    rw [Value.raw, ofRaw, ofRawItems_raw vs limit hn hd, Option.map_some]
  | .obj ms, limit + 1, hn, h => by
    have hd : maxMemberDepth ms ≤ limit := by simp only [Value.depth] at h; omega
    rw [Value.raw, ofRaw, ofRawMembers_raw ms limit [] hn.2 hd (by simpa using hn.1),
      List.nil_append, Option.map_some]

theorem ofRawItems_raw : ∀ (vs : List Value) (limit : ℕ), NormalItems vs → maxDepth vs ≤ limit →
    ofRawItems t limit (rawItems t vs) = some vs
  | [], _, _, _ => by simp [rawItems, ofRawItems]
  | v :: vs, limit, hn, h => by
    obtain ⟨hv, hvs⟩ := max_le_iff.mp (show max v.depth (maxDepth vs) ≤ limit from h)
    simp [rawItems, ofRawItems, ofRaw_raw v limit hn.1 hv, ofRawItems_raw vs limit hn.2 hvs]

theorem ofRawMembers_raw : ∀ (ms : List (String × Value)) (limit : ℕ) (seen : List (String × Value)),
    NormalMembers ms → maxMemberDepth ms ≤ limit → Sorted (seen ++ ms) →
    ofRawMembers t limit seen (rawMembers t ms) = some (seen ++ ms)
  | [], _, seen, _, _, _ => by simp [rawMembers, ofRawMembers]
  | (k, v) :: ms, limit, seen, hn, h, hs => by
    obtain ⟨hv, hms⟩ := max_le_iff.mp (show max v.depth (maxMemberDepth ms) ≤ limit from h)
    have hlast : insertKey k v seen = seen ++ [(k, v)] := by
      apply insertKey_last
      intro m hm
      exact (List.pairwise_append.mp hs).2.2 m hm (k, v) (by simp)
    have hs' : Sorted ((seen ++ [(k, v)]) ++ ms) := by simpa using hs
    simp [rawMembers, ofRawMembers, ofRaw_raw v limit hn.1 hv, hlast,
      ofRawMembers_raw ms limit _ hn.2 hms hs']

end

/-- Normal values are told apart by their texts. -/
theorem print_injective {v w : Value} (hv : v.Normal) (hw : w.Normal) (h : v.print t = w.print t) :
    v = w := by
  have hraw : v.raw t = w.raw t := by
    have hparse := parse_value t v
    rw [h, parse_value] at hparse
    exact (Option.some.inj hparse).symm
  have hread := ofRaw_raw t v (max v.depth w.depth) hv (le_max_left _ _)
  rw [hraw, ofRaw_raw t w (max v.depth w.depth) hw (le_max_right _ _)] at hread
  exact (Option.some.inj hread).symm

mutual

/-- What nests too deep is refused. -/
theorem ofRaw_deep : ∀ (v : Raw) (limit : ℕ), limit < v.depth → ofRaw t limit v = none
  | .null, _, h => by simp [Raw.depth] at h
  | .bool _, _, h => by simp [Raw.depth] at h
  | .num _, _, h => by simp [Raw.depth] at h
  | .str _, _, h => by simp [Raw.depth] at h
  | .arr _, 0, _ => by simp [ofRaw]
  | .obj _, 0, _ => by simp [ofRaw]
  | .arr vs, limit + 1, h => by
    rw [ofRaw, ofRawItems_deep vs limit (by simp only [Raw.depth] at h; omega), Option.map_none]
  | .obj ms, limit + 1, h => by
    rw [ofRaw, ofRawMembers_deep ms limit [] (by simp only [Raw.depth] at h; omega),
      Option.map_none]

theorem ofRawItems_deep : ∀ (vs : List Raw) (limit : ℕ), limit < depthItems vs →
    ofRawItems t limit vs = none
  | [], _, h => by simp [depthItems] at h
  | v :: vs, limit, h => by
    rw [depthItems, lt_max_iff] at h
    rcases h with h | h
    · simp [ofRawItems, ofRaw_deep v limit h]
    · simp [ofRawItems, ofRawItems_deep vs limit h]

theorem ofRawMembers_deep : ∀ (ms : List (Bytes × Raw)) (limit : ℕ) (seen : List (String × Value)),
    limit < depthMembers ms → ofRawMembers t limit seen ms = none
  | [], _, _, h => by simp [depthMembers] at h
  | (k, v) :: ms, limit, seen, h => by
    rw [depthMembers, lt_max_iff] at h
    rw [ofRawMembers]
    rcases h with h | h
    · simp [ofRaw_deep v limit h]
    · simp [fun seen => ofRawMembers_deep ms limit seen h]

end

theorem normalMembers_insertKey {k : String} {v : Value} {ms : List (String × Value)}
    (hv : v.Normal) (hms : NormalMembers ms) : NormalMembers (insertKey k v ms) := by
  rw [normalMembers_iff] at hms ⊢
  intro m hm
  rcases mem_insertKey hm with rfl | hm
  · exact hv
  · exact hms m hm

theorem maxMemberDepth_insertKey {k : String} {v : Value} {ms : List (String × Value)} {d : ℕ}
    (hv : v.depth ≤ d) (hms : maxMemberDepth ms ≤ d) : maxMemberDepth (insertKey k v ms) ≤ d := by
  rw [maxMemberDepth_le] at hms ⊢
  intro m hm
  rcases mem_insertKey hm with rfl | hm
  · exact hv
  · exact hms m hm

mutual

/-- What is read is normal, and no deeper than the limit. -/
theorem ofRaw_spec : ∀ {r : Raw} {limit : ℕ} {v : Value}, ofRaw t limit r = some v →
    v.Normal ∧ v.depth ≤ limit
  | .null, limit, v, h => by
    rw [ofRaw] at h
    cases h
    exact ⟨trivial, Nat.zero_le _⟩
  | .bool b, limit, v, h => by
    rw [ofRaw] at h
    cases h
    exact ⟨trivial, Nat.zero_le _⟩
  | .num l, limit, v, h => by
    rw [ofRaw] at h
    obtain ⟨n, -, rfl⟩ := Option.map_eq_some_iff.mp h
    exact ⟨trivial, Nat.zero_le _⟩
  | .str s, limit, v, h => by
    rw [ofRaw] at h
    obtain ⟨n, -, rfl⟩ := Option.map_eq_some_iff.mp h
    exact ⟨trivial, Nat.zero_le _⟩
  | .arr _, 0, v, h => by simp [ofRaw] at h
  | .obj _, 0, v, h => by simp [ofRaw] at h
  | .arr vs, limit + 1, v, h => by
    rw [ofRaw] at h
    obtain ⟨us, hus, rfl⟩ := Option.map_eq_some_iff.mp h
    obtain ⟨hn, hd⟩ := ofRawItems_spec hus
    exact ⟨hn, by rw [Value.depth]; omega⟩
  | .obj ms, limit + 1, v, h => by
    rw [ofRaw] at h
    obtain ⟨us, hus, rfl⟩ := Option.map_eq_some_iff.mp h
    obtain ⟨hs, hn, hd⟩ := ofRawMembers_spec (by simp [Sorted]) (by simp [NormalMembers])
      (by simp [maxMemberDepth]) hus
    exact ⟨⟨hs, hn⟩, by rw [Value.depth]; omega⟩

theorem ofRawItems_spec : ∀ {rs : List Raw} {limit : ℕ} {vs : List Value},
    ofRawItems t limit rs = some vs → NormalItems vs ∧ maxDepth vs ≤ limit
  | [], limit, vs, h => by
    rw [ofRawItems] at h
    cases h
    exact ⟨trivial, Nat.zero_le _⟩
  | r :: rs, limit, vs, h => by
    simp only [ofRawItems, Option.bind_eq_bind, Option.bind_eq_some_iff] at h
    obtain ⟨v, hv, us, hus, h⟩ := h
    cases h
    obtain ⟨hn, hd⟩ := ofRaw_spec hv
    obtain ⟨hns, hds⟩ := ofRawItems_spec hus
    exact ⟨⟨hn, hns⟩, max_le hd hds⟩

theorem ofRawMembers_spec : ∀ {rs : List (Bytes × Raw)} {limit : ℕ}
    {seen ms : List (String × Value)}, Sorted seen → NormalMembers seen →
    maxMemberDepth seen ≤ limit → ofRawMembers t limit seen rs = some ms →
    Sorted ms ∧ NormalMembers ms ∧ maxMemberDepth ms ≤ limit
  | [], limit, seen, ms, hs, hn, hd, h => by
    rw [ofRawMembers] at h
    cases h
    exact ⟨hs, hn, hd⟩
  | (k, r) :: rs, limit, seen, ms, hs, hn, hd, h => by
    simp only [ofRawMembers, Option.bind_eq_bind, Option.bind_eq_some_iff] at h
    obtain ⟨key, -, v, hv, h⟩ := h
    obtain ⟨hvn, hvd⟩ := ofRaw_spec hv
    exact ofRawMembers_spec (sorted_insertKey hs) (normalMembers_insertKey hvn hn)
      (maxMemberDepth_insertKey hvd hd) h

end

/-! ### The printed bytes -/

theorem Number.lexeme_bytes (n : Number) {b : UInt8} (h : b ∈ n.lexeme t) :
    isNumberByte b = true := by
  have hl := n.lexNumber_lexeme t (r := []) (by intro b hb; cases hb)
  exact (lexNumber_bytes hl).2.1 b h

theorem ge_of_isNumberByte {b : UInt8} (h : isNumberByte b = true) : 0x20 ≤ b := by
  simp only [isNumberByte, isDigit, Bool.or_eq_true, Bool.and_eq_true, decide_eq_true_eq,
    beq_iff_eq] at h
  rcases h with ((((⟨h, -⟩ | rfl) | rfl) | rfl) | rfl) | rfl
  · exact UInt8.le_trans (show (0x20 : UInt8) ≤ 48 by decide) h
  all_goals decide

theorem ge_of_all (l : Bytes) (h : l.all (fun b => decide (0x20 ≤ b)) = true) :
    ∀ b ∈ l, 0x20 ≤ b := by simpa using h

/-- A string in its quotes. -/
theorem ge_of_mem_quoted {s : String} {b : UInt8} (h : b ∈ 0x22 :: escape (utf8 s) ++ [0x22]) :
    0x20 ≤ b := by
  rcases List.mem_append.mp h with h | h
  · rcases List.mem_cons.mp h with rfl | h
    · decide
    · exact ge_of_mem_escape h
  · rw [List.mem_singleton.mp h]
    decide

/-- A member, and what follows it. -/
theorem ge_of_mem_member {k : String} {p q : Bytes} (hp : ∀ b ∈ p, 0x20 ≤ b)
    (hq : ∀ b ∈ q, 0x20 ≤ b) {b : UInt8}
    (h : b ∈ 0x22 :: escape (utf8 k) ++ 0x22 :: 0x3A :: p ++ q) : 0x20 ≤ b := by
  simp only [List.cons_append, List.append_assoc, List.mem_cons, List.mem_append] at h
  rcases h with rfl | h | rfl | rfl | h | h
  · decide
  · exact ge_of_mem_escape h
  · decide
  · decide
  · exact hp b h
  · exact hq b h

mutual

/-- No control character is printed; in particular a printed value is one line. -/
theorem ge_of_mem_print : ∀ (v : Value), ∀ b ∈ (v.raw t).print, 0x20 ≤ b
  | .null => ge_of_all nullBytes (by decide)
  | .bool true => ge_of_all trueBytes (by decide)
  | .bool false => ge_of_all falseBytes (by decide)
  | .num n => fun b hb => ge_of_isNumberByte (n.lexeme_bytes t hb)
  | .str s => fun b hb => ge_of_mem_quoted hb
  | .arr [] => ge_of_all [0x5B, 0x5D] (by decide)
  | .arr (v :: vs) => by
    intro b hb
    simp only [Value.raw, rawItems, Raw.print, List.cons_append, List.mem_cons,
      List.mem_append] at hb
    rcases hb with rfl | hb | hb
    · decide
    · exact ge_of_mem_print v b hb
    · exact ge_of_mem_printItems vs b hb
  | .obj [] => ge_of_all [0x7B, 0x7D] (by decide)
  | .obj ((k, v) :: ms) => by
    intro b hb
    rw [Value.raw, rawMembers, Raw.print] at hb
    rcases List.mem_cons.mp hb with rfl | hb
    · decide
    · exact ge_of_mem_member (ge_of_mem_print v) (ge_of_mem_printMembers ms) hb

theorem ge_of_mem_printItems : ∀ (vs : List Value), ∀ b ∈ printItems (rawItems t vs), 0x20 ≤ b
  | [] => ge_of_all [0x5D] (by decide)
  | v :: vs => by
    intro b hb
    simp only [rawItems, printItems, List.cons_append, List.mem_cons, List.mem_append] at hb
    rcases hb with rfl | hb | hb
    · decide
    · exact ge_of_mem_print v b hb
    · exact ge_of_mem_printItems vs b hb

theorem ge_of_mem_printMembers : ∀ (ms : List (String × Value)),
    ∀ b ∈ printMembers (rawMembers t ms), 0x20 ≤ b
  | [] => ge_of_all [0x7D] (by decide)
  | (k, v) :: ms => by
    intro b hb
    rw [rawMembers, printMembers] at hb
    rcases List.mem_cons.mp hb with rfl | hb
    · decide
    · exact ge_of_mem_member (ge_of_mem_print v) (ge_of_mem_printMembers ms) hb

end

end Schemes.Json
