import AiraGraphdb.Schemes.TopK

/-! # Bounded selection with a heap

A heap hands out a greatest item; in what order it keeps the others is its own business. With the
best item the least, a heap that never grows past a limit holds the first places of the ranking of
all that was offered to it. Heaps filled from the parts of a list and merged hold those of the
whole. -/

namespace Schemes

/-- What is known of a heap: what it holds, and that its head is a greatest item of it. -/
class MaxHeap {α : Type} (cmp : α → α → Ordering) (H : Type) where
  empty : H
  push : H → α → H
  peek : H → Option α
  pop : H → H
  toList : H → List α
  toList_empty : toList empty = []
  toList_push (h : H) (x : α) : (toList (push h x)).Perm (x :: toList h)
  peek_none {h : H} : peek h = none → toList h = []
  toList_pop {h : H} {w : α} : peek h = some w → (w :: toList (pop h)).Perm (toList h)
  peek_greatest {h : H} {w : α} : peek h = some w → ∀ y ∈ toList h, (cmp y w).isLE

/-- A heap that keeps its items in order, the greatest first. -/
structure SortedHeap {α : Type} (cmp : α → α → Ordering) where
  items : List α
  ordered : TopK.InOrder (fun a b => cmp b a) items

instance {α : Type} (cmp : α → α → Ordering) [Std.TransCmp cmp] : MaxHeap cmp (SortedHeap cmp) where
  empty := ⟨[], .nil⟩
  push h x :=
    haveI := transCmp_flip (id : α → α) cmp
    ⟨TopK.enter (fun a b => cmp b a) x h.items, h.ordered.enter⟩
  peek h := h.items.head?
  pop h := ⟨h.items.tail, h.ordered.tail⟩
  toList h := h.items
  toList_empty := rfl
  toList_push h x := TopK.enter_perm _ x h.items
  peek_none h := List.head?_eq_none_iff.mp h
  toList_pop h := List.Perm.of_eq (List.cons_head?_tail h)
  peek_greatest := by
    rintro ⟨items, hordered⟩ w hw y hy
    obtain ⟨rest, rfl⟩ := List.head?_eq_some_iff.mp hw
    rcases List.mem_cons.mp hy with rfl | hy
    · exact Std.ReflCmp.isLE_rfl
    · exact (List.pairwise_cons.mp hordered).1 y hy

namespace TopK

variable {α H : Type} (cmp : α → α → Ordering) [MaxHeap cmp H]

open MaxHeap

/-- An item offered to a heap of at most `limit` items. -/
def offer (limit : ℕ) (h : H) (x : α) : H :=
  if limit = 0 then h
  else if (toList cmp h).length < limit then push cmp h x
  else match peek cmp h with
    | none => h
    | some worst => if cmp x worst = .lt then push cmp (pop cmp h) x else h

/-- An item that beats the last one comes before it. -/
theorem enter_concat {x last : α} (h : cmp x last = .lt) (xs : List α) :
    enter cmp x (xs ++ [last]) = enter cmp x xs ++ [last] := by
  induction xs with
  | nil => simp [enter, h]
  | cons y ys ih =>
    rw [List.cons_append, enter, enter]
    split
    · rfl
    · rw [ih]
      rfl

variable [Std.TransCmp cmp] [Std.LawfulEqCmp cmp]

/-- The last of a list in order is the only greatest item of it. -/
theorem greatest_eq_last {xs : List α} {last w : α} (h : InOrder cmp (xs ++ [last]))
    (hw : w ∈ xs ++ [last]) (hlast : (cmp last w).isLE) : w = last := by
  rcases List.mem_append.mp hw with hw | hw
  · have hle := (List.pairwise_append.mp h).2.2 w hw last (by simp)
    exact Std.LawfulEqCmp.eq_of_compare (Std.OrientedCmp.isLE_antisymm hle hlast)
  · exact List.mem_singleton.mp hw

/-- The step: a heap that holds what is kept holds what is retained. -/
theorem offer_perm {limit : ℕ} {h : H} {kept : List α} (hkept : InOrder cmp kept)
    (hlen : kept.length ≤ limit) (hperm : (toList cmp h).Perm kept) (x : α) :
    (toList cmp (offer cmp limit h x)).Perm (retain cmp limit kept x) := by
  rw [offer, retain]
  by_cases h0 : limit = 0
  · rw [if_pos h0, if_pos h0]
    exact hperm
  rw [if_neg h0, if_neg h0, hperm.length_eq]
  by_cases hlt : kept.length < limit
  · rw [if_pos hlt, if_neg (by omega), if_neg (by omega)]
    exact ((toList_push h x).trans (hperm.cons x)).trans (enter_perm cmp x kept).symm
  rw [if_neg hlt]
  obtain ⟨xs, last, rfl⟩ : ∃ xs last, kept = xs ++ [last] := by
    rcases List.eq_nil_or_concat kept with rfl | ⟨xs, last, he⟩
    · simp only [List.length_nil] at hlt
      omega
    · exact ⟨xs, last, by simpa using he⟩
  rcases hw : peek cmp h with _ | w
  · have hnil := hperm.length_eq
    rw [peek_none hw] at hnil
    simp at hnil
  · have hmem : w ∈ xs ++ [last] := by
      rw [← hperm.mem_iff, ← (toList_pop hw).mem_iff]
      simp
    obtain rfl := greatest_eq_last cmp hkept hmem
      (peek_greatest hw last (by rw [hperm.mem_iff]; simp))
    simp only [List.getLast?_concat, Option.any_some]
    by_cases hbeats : cmp x w = .lt
    · rw [if_pos hbeats, if_neg (by simp [hbeats]), if_pos (by omega), enter_concat cmp hbeats,
        List.dropLast_concat]
      have hrest : (toList cmp (pop cmp h)).Perm xs :=
        (((toList_pop hw).trans hperm).trans (List.perm_append_singleton w xs)).cons_inv
      exact ((toList_push (pop cmp h) x).trans (hrest.cons x)).trans (enter_perm cmp x xs).symm
    · rw [if_neg hbeats, if_pos ⟨by omega, by simpa using hbeats⟩]
      exact hperm

/-- The run: a heap holds the first places of the ranking of all that was offered. -/
theorem foldl_offer_perm (limit : ℕ) (xs : List α) :
    (toList cmp (xs.foldl (offer cmp limit) (empty cmp : H))).Perm ((ranking cmp xs).take limit) := by
  have hrun : (toList cmp (xs.foldl (offer cmp limit) (empty cmp : H))).Perm
      (xs.foldl (retain cmp limit) []) := by
    induction xs using List.reverseRecOn with
    | nil =>
      rw [List.foldl_nil, List.foldl_nil, toList_empty]
    | append_singleton xs x ih =>
      rw [List.foldl_append, List.foldl_append]
      have hkept : InOrder cmp (xs.foldl (retain cmp limit) []) := by
        rw [foldl_retain]
        exact (ranking_inOrder cmp xs).sublist (List.take_sublist limit _)
      refine offer_perm cmp hkept ?_ ih x
      rw [foldl_retain]
      exact List.length_take_le limit _
  rwa [foldl_retain] at hrun

/-! ### The parts of a list -/

omit [MaxHeap cmp H] in
theorem take_ranking_perm (limit : ℕ) {xs ys : List α} (h : xs.Perm ys) :
    (ranking cmp xs).take limit = (ranking cmp ys).take limit := by
  rw [ranking_eq_of_perm cmp h fun a _ b _ => Std.LawfulEqCmp.eq_of_compare]

omit [MaxHeap cmp H] in
theorem ranking_of_inOrder {xs : List α} (h : InOrder cmp xs) : ranking cmp xs = xs := by
  refine (ranking_perm cmp xs).eq_of_pairwise ?_ (ranking_inOrder cmp xs) h
  intro a b _ _ hab hba
  exact Std.LawfulEqCmp.eq_of_compare (Std.OrientedCmp.isLE_antisymm hab hba)

omit [MaxHeap cmp H] in
/-- Of a part of the list the first places are enough. -/
theorem take_ranking_append (limit : ℕ) (xs ys : List α) :
    (ranking cmp ((ranking cmp xs).take limit ++ ys)).take limit
      = (ranking cmp (xs ++ ys)).take limit := by
  have hsorted : InOrder cmp ((ranking cmp xs).take limit) :=
    (ranking_inOrder cmp xs).sublist (List.take_sublist limit _)
  rw [← foldl_retain cmp limit (xs ++ ys), ← foldl_retain cmp limit (_ ++ ys), List.foldl_append,
    List.foldl_append, foldl_retain, foldl_retain, ranking_of_inOrder cmp hsorted, List.take_take,
    min_self]

omit [MaxHeap cmp H] in
/-- Parts of which only the first places are kept, in whatever order. -/
theorem take_ranking_flatten (limit : ℕ) {parts kept : List (List α)}
    (h : List.Forall₂ (fun part kept => kept.Perm ((ranking cmp part).take limit)) parts kept) :
    (ranking cmp kept.flatten).take limit = (ranking cmp parts.flatten).take limit := by
  induction h with
  | nil => rfl
  | @cons part first parts kept hfirst _ ih =>
    rw [List.flatten_cons, List.flatten_cons,
      take_ranking_perm cmp limit (hfirst.append_right kept.flatten), take_ranking_append,
      take_ranking_perm cmp limit List.perm_append_comm, ← take_ranking_append, ih,
      take_ranking_append, take_ranking_perm cmp limit List.perm_append_comm]

/-- Heaps filled from the parts and merged into one. -/
theorem merged_perm (limit : ℕ) (parts : List (List α)) :
    (toList cmp ((parts.map fun part => part.foldl (offer cmp limit) (empty cmp : H)).foldl
        (fun merged heap => (toList cmp heap).foldl (offer cmp limit) merged) (empty cmp : H))).Perm
      ((ranking cmp parts.flatten).take limit) := by
  have hflat : ∀ (heaps : List H) (merged : H),
      heaps.foldl (fun merged heap => (toList cmp heap).foldl (offer cmp limit) merged) merged
        = (heaps.map (toList cmp)).flatten.foldl (offer cmp limit) merged := by
    intro heaps
    induction heaps with
    | nil => exact fun _ => rfl
    | cons heap heaps ih =>
      intro merged
      rw [List.foldl_cons, ih, List.map_cons, List.flatten_cons, List.foldl_append]
  have hparts : List.Forall₂ (fun part kept => kept.Perm ((ranking cmp part).take limit)) parts
      ((parts.map fun part => part.foldl (offer cmp limit) (empty cmp : H)).map (toList cmp)) := by
    rw [List.map_map, List.forall₂_map_right_iff]
    exact List.forall₂_same.mpr fun part _ => foldl_offer_perm cmp limit part
  rw [hflat, ← take_ranking_flatten cmp limit hparts]
  exact foldl_offer_perm cmp limit _

end TopK

/-! ### Chunks -/

section Chunks

variable {α : Type}

/-- The list in pieces of `n` items, the last one with what is left. -/
def chunks (n : ℕ) (xs : List α) : List (List α) :=
  (List.range ((xs.length + n - 1) / n)).map fun i => (xs.drop (i * n)).take n

theorem flatten_chunks {n : ℕ} (hn : 0 < n) (xs : List α) : (chunks n xs).flatten = xs := by
  have hpieces : ∀ m : ℕ, ((List.range m).map fun i => (xs.drop (i * n)).take n).flatten
      = xs.take (m * n) := by
    intro m
    induction m with
    | zero => simp
    | succ m ih =>
      rw [List.range_succ, List.map_append, List.flatten_append, ih, Nat.succ_mul, List.take_add]
      simp
  rw [chunks, hpieces, List.take_of_length_le]
  have hdiv := Nat.div_add_mod (xs.length + n - 1) n
  have hmod := Nat.mod_lt (xs.length + n - 1) hn
  rw [mul_comm] at hdiv
  omega

end Chunks

end Schemes
