import AiraGraphdb.Schemes.Bytes

/-! # Sequential binary codecs

A codec writes a value as bytes and reads one value off the front of a byte string. Two laws make
such codecs compose: reading what was written gives the value back and leaves the rest
(`Lawful.roundtrip`), and a successful read does not look past what it consumed
(`Lawful.extend`). From the two together, a file that was cut short never decodes:
`Lawful.cut_short`. The values a codec can write are delimited by `Fits`, since a length that is
stored in eight bytes has to be below `2 ^ 64`. -/

namespace Schemes

/-- How values of `α` are written, read back, and which of them can be written. -/
structure Codec (α : Type) where
  put : α → Bytes
  get : Bytes → Option (α × Bytes)
  Fits : α → Prop

/-- The codec reads back what it wrote, and reads from the front only. -/
structure Codec.Lawful {α : Type} (c : Codec α) : Prop where
  roundtrip : ∀ a r, c.Fits a → c.get (c.put a ++ r) = some (a, r)
  extend : ∀ {x a r}, c.get x = some (a, r) → ∀ s, c.get (x ++ s) = some (a, r ++ s)

namespace Codec

variable {α β : Type}

theorem Lawful.get_put {c : Codec α} (hc : c.Lawful) {a : α} (ha : c.Fits a) :
    c.get (c.put a) = some (a, []) := by
  simpa using hc.roundtrip a [] ha

/-- A proper prefix of an encoding is not an encoding of anything. -/
theorem Lawful.cut_short {c : Codec α} (hc : c.Lawful) {a : α} (ha : c.Fits a) {p : Bytes}
    (hp : ProperPrefix p (c.put a)) : c.get p = none := by
  obtain ⟨⟨s, hs⟩, hne⟩ := hp
  rcases h : c.get p with _ | ⟨b, r⟩
  · rfl
  · have hx := hc.extend h s
    rw [hs, hc.get_put ha, Option.some.injEq, Prod.mk.injEq] at hx
    have hnil : s = [] := by
      have := hx.2.symm
      simp at this
      exact this.2
    subst hnil
    exact absurd (by simpa using hs) hne

/-! ### Building blocks -/

/-- Exactly `w` bytes, taken as they are. -/
def takeBytes (w : ℕ) (x : Bytes) : Option (Bytes × Bytes) :=
  if w ≤ x.length then some (x.take w, x.drop w) else none

theorem takeBytes_append (w : ℕ) (b r : Bytes) (h : b.length = w) :
    takeBytes w (b ++ r) = some (b, r) := by
  subst h
  simp [takeBytes]

theorem takeBytes_extend {w : ℕ} {x b r : Bytes} (h : takeBytes w x = some (b, r)) (s : Bytes) :
    takeBytes w (x ++ s) = some (b, r ++ s) := by
  simp only [takeBytes] at h ⊢
  split at h
  · rename_i hle
    obtain ⟨rfl, rfl⟩ := Prod.mk.inj (Option.some.inj h)
    rw [if_pos (by rw [List.length_append]; omega), List.take_append_of_le_length hle,
      List.drop_append_of_le_length hle]
  · cases h

/-- A number in `w` little-endian bytes. -/
def number (w : ℕ) : Codec ℕ where
  put n := leBytes w n
  get x := do
    let (b, r) ← takeBytes w x
    return (ofLe b, r)
  Fits n := n < 256 ^ w

theorem number_lawful (w : ℕ) : (number w).Lawful where
  roundtrip n r hn := by
    simp [number, takeBytes_append w _ r (length_leBytes w n), ofLe_leBytes hn]
  extend {x a r} h s := by
    simp only [number, Option.bind_eq_bind, Option.bind_eq_some_iff] at h ⊢
    obtain ⟨⟨b, r'⟩, hb, h⟩ := h
    obtain ⟨rfl, rfl⟩ := Prod.mk.inj (Option.some.inj h)
    exact ⟨(b, r' ++ s), takeBytes_extend hb s, rfl⟩

/-- The codec of a type that is carried by another. It writes the values that `back` recovers, and
    `back` rejects what stands for no value. -/
def carried (c : Codec α) (repr : β → α) (back : α → Option β) : Codec β where
  put b := c.put (repr b)
  get x := do
    let (a, r) ← c.get x
    let b ← back a
    return (b, r)
  Fits b := back (repr b) = some b ∧ c.Fits (repr b)

theorem carried_lawful {c : Codec α} {repr : β → α} {back : α → Option β} (hc : c.Lawful) :
    (carried c repr back).Lawful where
  roundtrip b r h := by
    simp [carried, hc.roundtrip (repr b) r h.2, h.1]
  extend {x b r} h s := by
    simp only [carried, Option.bind_eq_bind, Option.bind_eq_some_iff] at h ⊢
    obtain ⟨⟨a, r'⟩, ha, b', hb', h⟩ := h
    obtain ⟨rfl, rfl⟩ := Prod.mk.inj (Option.some.inj h)
    exact ⟨(a, r' ++ s), hc.extend ha s, b', hb', rfl⟩

/-- The codec of no value: what is read where the format knows no variant. -/
def none : Codec α where
  put _ := []
  get _ := Option.none
  Fits _ := False

theorem none_lawful : (none : Codec α).Lawful where
  roundtrip _ _ h := h.elim
  extend h := by cases h

/-- One value after the other; how the second is read may depend on the first. -/
def seq (c : Codec α) (d : α → Codec β) : Codec (α × β) where
  put p := c.put p.1 ++ (d p.1).put p.2
  get x := do
    let (a, r) ← c.get x
    let (b, r') ← (d a).get r
    return ((a, b), r')
  Fits p := c.Fits p.1 ∧ (d p.1).Fits p.2

theorem seq_lawful {c : Codec α} {d : α → Codec β} (hc : c.Lawful) (hd : ∀ a, (d a).Lawful) :
    (seq c d).Lawful where
  roundtrip p r h := by
    simp [seq, hc.roundtrip p.1 _ h.1, (hd p.1).roundtrip p.2 r h.2, List.append_assoc]
  extend {x p r} h s := by
    simp only [seq, Option.bind_eq_bind, Option.bind_eq_some_iff] at h ⊢
    obtain ⟨⟨a, r₁⟩, ha, ⟨b, r₂⟩, hb, h⟩ := h
    obtain ⟨rfl, rfl⟩ := Prod.mk.inj (Option.some.inj h)
    exact ⟨(a, r₁ ++ s), hc.extend ha s, (b, r₂ ++ s), (hd a).extend hb s, rfl⟩

/-- `n` values in a row. -/
def getMany (get : Bytes → Option (α × Bytes)) : ℕ → Bytes → Option (List α × Bytes)
  | 0, x => some ([], x)
  | n + 1, x => do
    let (a, r) ← get x
    let (as, r') ← getMany get n r
    return (a :: as, r')

/-- The values of a list in a row; how many they are is known from elsewhere. -/
def many (c : Codec α) (n : ℕ) : Codec (List α) where
  put as := as.flatMap c.put
  get x := getMany c.get n x
  Fits as := as.length = n ∧ ∀ a ∈ as, c.Fits a

theorem many_roundtrip {c : Codec α} (hc : c.Lawful) :
    ∀ (as : List α) (r : Bytes), (∀ a ∈ as, c.Fits a) →
      getMany c.get as.length (as.flatMap c.put ++ r) = some (as, r)
  | [], r, _ => rfl
  | a :: as, r, h => by
    have ha := hc.roundtrip a (as.flatMap c.put ++ r) (h a (by simp))
    have has := many_roundtrip hc as r fun b hb => h b (by simp [hb])
    simp [getMany, List.append_assoc, ha, has]

theorem many_extend {c : Codec α} (hc : c.Lawful) :
    ∀ {n : ℕ} {x : Bytes} {as : List α} {r : Bytes}, getMany c.get n x = some (as, r) →
      ∀ s, getMany c.get n (x ++ s) = some (as, r ++ s)
  | 0, _, _, _, h, s => by
    obtain ⟨rfl, rfl⟩ := Prod.mk.inj (Option.some.inj h)
    rfl
  | n + 1, x, as, r, h, s => by
    simp only [getMany, Option.bind_eq_bind, Option.bind_eq_some_iff] at h ⊢
    obtain ⟨⟨a, r₁⟩, ha, ⟨as', r₂⟩, has, h⟩ := h
    obtain ⟨rfl, rfl⟩ := Prod.mk.inj (Option.some.inj h)
    exact ⟨(a, r₁ ++ s), hc.extend ha s, (as', r₂ ++ s), many_extend hc has s, rfl⟩

theorem many_lawful {c : Codec α} (hc : c.Lawful) (n : ℕ) : (many c n).Lawful where
  roundtrip as r h := by
    obtain ⟨rfl, h⟩ := h
    exact many_roundtrip hc as r h
  extend h s := many_extend hc h s

/-! ### What is read can be written -/

/-- Every value that is read is one that fits. -/
def ReadsFit (c : Codec α) : Prop := ∀ x a r, c.get x = some (a, r) → c.Fits a

theorem number_readsFit (w : ℕ) : (number w).ReadsFit := by
  intro x a r h
  simp only [number, takeBytes, Option.bind_eq_bind, Option.bind_eq_some_iff] at h
  obtain ⟨⟨b, r'⟩, hb, h⟩ := h
  split at hb
  · rename_i hle
    cases hb
    cases h
    have hlt := ofLe_lt (x.take w)
    rwa [List.length_take, min_eq_left hle] at hlt
  · cases hb

theorem carried_readsFit {c : Codec α} {repr : β → α} {back : α → Option β} (hc : c.ReadsFit)
    (hback : ∀ a b, c.Fits a → back a = some b → back (repr b) = some b ∧ c.Fits (repr b)) :
    (carried c repr back).ReadsFit := by
  intro x b r h
  simp only [carried, Option.bind_eq_bind, Option.bind_eq_some_iff] at h
  obtain ⟨⟨a, r'⟩, ha, b', hb', h⟩ := h
  cases h
  exact hback a _ (hc _ _ _ ha) hb'

theorem none_readsFit : (none : Codec α).ReadsFit := by
  intro x a r h
  cases h

theorem seq_readsFit {c : Codec α} {d : α → Codec β} (hc : c.ReadsFit) (hd : ∀ a, (d a).ReadsFit) :
    (seq c d).ReadsFit := by
  intro x p r h
  simp only [seq, Option.bind_eq_bind, Option.bind_eq_some_iff] at h
  obtain ⟨⟨a, r₁⟩, ha, ⟨b, r₂⟩, hb, h⟩ := h
  cases h
  exact ⟨hc _ _ _ ha, hd a _ _ _ hb⟩

theorem many_readsFit {c : Codec α} (hc : c.ReadsFit) (n : ℕ) : (many c n).ReadsFit := by
  intro x as r h
  induction n generalizing x as r with
  | zero =>
    cases h
    exact ⟨rfl, by simp⟩
  | succ n ih =>
    simp only [many, getMany, Option.bind_eq_bind, Option.bind_eq_some_iff] at h
    obtain ⟨⟨a, r₁⟩, ha, ⟨as', r₂⟩, has, h⟩ := h
    cases h
    obtain ⟨hlen, hall⟩ := ih _ _ _ has
    refine ⟨by simp [hlen], fun b hb => ?_⟩
    rcases List.mem_cons.mp hb with rfl | hb
    · exact hc _ _ _ ha
    · exact hall b hb

end Codec

end Schemes
