import Mathlib.Data.List.Induction
import Mathlib.Data.List.Sort
import Mathlib.Order.Basic

/-!
# Ordered association maps

A finite map stored as its list of bindings in strictly increasing key order.
Strict order is a field, so each map has exactly one representation: equality
is extensional, iteration is in key order, and a search through the values
returns the least key whose value passes the test.
-/

namespace Basis

universe u v

/-- A finite map whose bindings are listed once each, in increasing key order. -/
structure OrdMap (κ : Type u) (α : Type v) [LinearOrder κ] where
  /-- The bindings, least key first. -/
  entries : List (κ × α)
  /-- Keys increase strictly, hence never repeat. -/
  sorted : entries.Pairwise fun p q => p.1 < q.1
  deriving DecidableEq

variable {κ : Type u} {α : Type v} [LinearOrder κ]

/-- Put one binding into a sorted list, replacing the binding of an equal key. -/
def insertEntries (k : κ) (v : α) : List (κ × α) → List (κ × α)
  | [] => [(k, v)]
  | p :: l =>
      if k < p.1 then (k, v) :: p :: l
      else if k = p.1 then (k, v) :: l
      else p :: insertEntries k v l

/-- Every binding after an insertion is the new one or an old one. -/
theorem mem_of_mem_insertEntries {k : κ} {v : α} {l : List (κ × α)} {p : κ × α}
    (h : p ∈ insertEntries k v l) : p = (k, v) ∨ p ∈ l := by
  induction l with
  | nil => simpa [insertEntries] using h
  | cons q l ih =>
    simp only [insertEntries] at h
    split at h
    · simpa using h
    · split at h
      · rcases List.mem_cons.mp h with h | h
        · exact Or.inl h
        · exact Or.inr (List.mem_cons_of_mem _ h)
      · rcases List.mem_cons.mp h with h | h
        · exact Or.inr (h ▸ List.mem_cons_self ..)
        · exact (ih h).imp_right (List.mem_cons_of_mem _)

/-- Insertion keeps the keys strictly increasing. -/
theorem pairwise_insertEntries (k : κ) (v : α) {l : List (κ × α)}
    (h : l.Pairwise fun p q => p.1 < q.1) :
    (insertEntries k v l).Pairwise fun p q => p.1 < q.1 := by
  induction l with
  | nil => simp [insertEntries]
  | cons q l ih =>
    obtain ⟨hq, hl⟩ := List.pairwise_cons.mp h
    simp only [insertEntries]
    split
    · rename_i hlt
      refine List.pairwise_cons.mpr ⟨?_, h⟩
      intro p hp
      rcases List.mem_cons.mp hp with rfl | hp
      · exact hlt
      · exact hlt.trans (hq p hp)
    · split
      · rename_i he
        exact List.pairwise_cons.mpr ⟨fun p hp => he ▸ hq p hp, hl⟩
      · rename_i hge hne
        refine List.pairwise_cons.mpr ⟨?_, ih hl⟩
        intro p hp
        rcases mem_of_mem_insertEntries hp with rfl | hp
        · exact lt_of_le_of_ne (not_lt.mp hge) (Ne.symm hne)
        · exact hq p hp

/-- Exact membership after an insertion into a sorted list. -/
theorem mem_insertEntries {k : κ} {v : α} {l : List (κ × α)}
    (h : l.Pairwise fun p q => p.1 < q.1) {p : κ × α} :
    p ∈ insertEntries k v l ↔ p = (k, v) ∨ p ∈ l ∧ p.1 ≠ k := by
  induction l with
  | nil => simp [insertEntries]
  | cons q l ih =>
    obtain ⟨hq, hl⟩ := List.pairwise_cons.mp h
    simp only [insertEntries]
    split
    · rename_i hlt
      have hne : ∀ x ∈ q :: l, x.1 ≠ k := by
        intro x hx
        rcases List.mem_cons.mp hx with rfl | hx
        · exact hlt.ne'
        · exact (hlt.trans (hq x hx)).ne'
      constructor
      · intro hp
        exact (List.mem_cons.mp hp).imp_right fun hp => ⟨hp, hne p hp⟩
      · rintro (rfl | ⟨hp, -⟩)
        · exact List.mem_cons_self ..
        · exact List.mem_cons_of_mem _ hp
    · split
      · rename_i he
        constructor
        · intro hp
          refine (List.mem_cons.mp hp).imp_right fun hp => ⟨List.mem_cons_of_mem _ hp, ?_⟩
          exact he ▸ (hq p hp).ne'
        · rintro (rfl | ⟨hp, hne⟩)
          · exact List.mem_cons_self ..
          · rcases List.mem_cons.mp hp with rfl | hp
            · exact absurd he.symm hne
            · exact List.mem_cons_of_mem _ hp
      · rename_i hge hne
        rw [List.mem_cons, ih hl, List.mem_cons]
        constructor
        · rintro (rfl | rfl | ⟨hp, hk⟩)
          · exact Or.inr ⟨Or.inl rfl, Ne.symm hne⟩
          · exact Or.inl rfl
          · exact Or.inr ⟨Or.inr hp, hk⟩
        · rintro (rfl | ⟨rfl | hp, hk⟩)
          · exact Or.inr (Or.inl rfl)
          · exact Or.inl rfl
          · exact Or.inr (Or.inr ⟨hp, hk⟩)

namespace OrdMap

/-- The map without bindings. -/
def empty : OrdMap κ α := ⟨[], List.Pairwise.nil⟩

/-- Bind `k` to `v`, replacing what was bound before. -/
def insert (m : OrdMap κ α) (k : κ) (v : α) : OrdMap κ α :=
  ⟨insertEntries k v m.entries, pairwise_insertEntries k v m.sorted⟩

/-- Drop the binding of `k`. -/
def erase (m : OrdMap κ α) (k : κ) : OrdMap κ α :=
  ⟨m.entries.filter fun p => p.1 ≠ k, m.sorted.filter _⟩

/-- The value bound to `k`. -/
def get? (m : OrdMap κ α) (k : κ) : Option α :=
  (m.entries.find? fun p => p.1 = k).map Prod.snd

/-- Whether `k` is bound. -/
def contains (m : OrdMap κ α) (k : κ) : Bool := (m.get? k).isSome

/-- The keys, in increasing order. -/
def keys (m : OrdMap κ α) : List κ := m.entries.map Prod.fst

/-- The values, in the order of their keys. -/
def values (m : OrdMap κ α) : List α := m.entries.map Prod.snd

/-- The number of bindings. -/
def length (m : OrdMap κ α) : Nat := m.entries.length

/-- Whether nothing is bound. -/
def isEmpty (m : OrdMap κ α) : Bool := m.entries.isEmpty

/-- Collect bindings from left to right; a later binding of a key wins. -/
def ofList (l : List (κ × α)) : OrdMap κ α := l.foldl (fun m p => m.insert p.1 p.2) empty

/-- The binding with the greatest key. -/
def last? (m : OrdMap κ α) : Option (κ × α) := m.entries.getLast?

/-- Two listed bindings of one key are the same binding. -/
theorem entries_unique (m : OrdMap κ α) {p q : κ × α} (hp : p ∈ m.entries) (hq : q ∈ m.entries)
    (h : p.1 = q.1) : p = q := by
  have hnd : (m.entries.map Prod.fst).Nodup := List.pairwise_map.mpr (m.sorted.imp fun h => h.ne)
  exact List.inj_on_of_nodup_map hnd hp hq h

/-- Looking a key up finds exactly its listed binding. -/
theorem get?_eq_some {m : OrdMap κ α} {k : κ} {v : α} :
    m.get? k = some v ↔ (k, v) ∈ m.entries := by
  simp only [get?, Option.map_eq_some_iff]
  constructor
  · rintro ⟨p, hp, rfl⟩
    have hk : p.1 = k := by simpa using List.find?_some hp
    exact hk ▸ List.mem_of_find?_eq_some hp
  · intro h
    have hs : (m.entries.find? fun p => decide (p.1 = k)).isSome := by
      rw [List.find?_isSome]
      exact ⟨_, h, by simp⟩
    obtain ⟨p, hp⟩ := Option.isSome_iff_exists.mp hs
    have hk : p.1 = k := by simpa using List.find?_some hp
    refine ⟨p, hp, ?_⟩
    rw [m.entries_unique (List.mem_of_find?_eq_some hp) h hk]

/-- An unbound key occurs in no binding. -/
theorem get?_eq_none {m : OrdMap κ α} {k : κ} : m.get? k = none ↔ ∀ v, (k, v) ∉ m.entries := by
  constructor
  · intro h v hv
    rw [get?_eq_some.mpr hv] at h
    cases h
  · intro h
    cases hg : m.get? k with
    | none => rfl
    | some v => exact absurd (get?_eq_some.mp hg) (h v)

/-- Lookups determine the map. -/
theorem ext_get? {m n : OrdMap κ α} (h : ∀ k, m.get? k = n.get? k) : m = n := by
  have hmem : ∀ p : κ × α, p ∈ m.entries ↔ p ∈ n.entries := by
    rintro ⟨k, v⟩
    rw [← get?_eq_some, ← get?_eq_some, h]
  have he : m.entries = n.entries := by
    have : Std.Asymm (fun p q : κ × α => p.1 < q.1) := ⟨fun _ _ hab hba => lt_asymm hab hba⟩
    exact m.sorted.eq_of_mem_iff n.sorted (fun p => hmem p)
  cases m
  cases n
  cases he
  rfl

@[simp] theorem get?_empty (k : κ) : (empty : OrdMap κ α).get? k = none := rfl

/-- A lookup after an insertion. -/
theorem get?_insert (m : OrdMap κ α) (k k' : κ) (v : α) :
    (m.insert k v).get? k' = if k' = k then some v else m.get? k' := by
  have hmem : ∀ w, (k', w) ∈ (m.insert k v).entries ↔
      (k', w) = (k, v) ∨ (k', w) ∈ m.entries ∧ k' ≠ k := fun w => mem_insertEntries m.sorted
  split
  · rename_i he
    subst he
    rw [get?_eq_some, hmem]
    exact Or.inl rfl
  · rename_i hne
    cases hg : m.get? k' with
    | none =>
      rw [get?_eq_none] at hg ⊢
      intro w hw
      rcases (hmem w).mp hw with he | ⟨hin, -⟩
      · exact hne (congrArg Prod.fst he)
      · exact hg w hin
    | some w =>
      rw [get?_eq_some] at hg ⊢
      exact (hmem w).mpr (Or.inr ⟨hg, hne⟩)

@[simp] theorem get?_insert_self (m : OrdMap κ α) (k : κ) (v : α) :
    (m.insert k v).get? k = some v := by rw [get?_insert, if_pos rfl]

theorem get?_insert_of_ne (m : OrdMap κ α) {k k' : κ} (v : α) (h : k' ≠ k) :
    (m.insert k v).get? k' = m.get? k' := by rw [get?_insert, if_neg h]

/-- Inserting changes nothing exactly when the pair is there. -/
theorem insert_eq_self_iff {m : OrdMap κ α} {k : κ} {v : α} :
    m.insert k v = m ↔ m.get? k = some v := by
  constructor
  · intro h
    rw [← h, get?_insert_self]
  · intro h
    refine ext_get? fun k' => ?_
    rw [get?_insert]
    split
    · next heq => rw [heq, h]
    · rfl

/-- A lookup after an erasure. -/
theorem get?_erase (m : OrdMap κ α) (k k' : κ) :
    (m.erase k).get? k' = if k' = k then none else m.get? k' := by
  have hmem : ∀ w, (k', w) ∈ (m.erase k).entries ↔ (k', w) ∈ m.entries ∧ k' ≠ k := by
    intro w
    simp [erase, List.mem_filter]
  split
  · rename_i he
    rw [get?_eq_none]
    intro w hw
    exact ((hmem w).mp hw).2 he
  · rename_i hne
    cases hg : m.get? k' with
    | none =>
      rw [get?_eq_none] at hg ⊢
      exact fun w hw => hg w ((hmem w).mp hw).1
    | some w =>
      rw [get?_eq_some] at hg ⊢
      exact (hmem w).mpr ⟨hg, hne⟩

/-- A key is bound when it has a value. -/
theorem contains_iff {m : OrdMap κ α} {k : κ} : m.contains k = true ↔ ∃ v, m.get? k = some v := by
  rw [contains, Option.isSome_iff_exists]

/-- Erasing adds no key. -/
theorem contains_of_erase {m : OrdMap κ α} {k k' : κ} (h : (m.erase k).contains k' = true) :
    m.contains k' = true := by
  obtain ⟨v, hv⟩ := contains_iff.mp h
  rw [get?_erase] at hv
  split at hv
  · cases hv
  · exact contains_iff.mpr ⟨v, hv⟩

@[simp] theorem contains_insert (m : OrdMap κ α) (k k' : κ) (v : α) :
    (m.insert k v).contains k' = (decide (k' = k) || m.contains k') := by
  rw [contains, get?_insert]
  split
  · rename_i h
    simp [h]
  · rename_i h
    simp [h, contains]

@[simp] theorem contains_empty (k : κ) : (empty : OrdMap κ α).contains k = false := rfl

/-- The listed keys are the bound ones. -/
theorem mem_keys {m : OrdMap κ α} {k : κ} : k ∈ m.keys ↔ m.contains k = true := by
  rw [contains_iff, keys, List.mem_map]
  constructor
  · rintro ⟨p, hp, rfl⟩
    exact ⟨p.2, get?_eq_some.mpr hp⟩
  · rintro ⟨v, hv⟩
    exact ⟨_, get?_eq_some.mp hv, rfl⟩

/-- Keys are listed in strictly increasing order. -/
theorem keys_pairwise (m : OrdMap κ α) : m.keys.Pairwise (· < ·) :=
  List.pairwise_map.mpr m.sorted

/-- The listed values are the bound ones. -/
theorem mem_values {m : OrdMap κ α} {v : α} : v ∈ m.values ↔ ∃ k, m.get? k = some v := by
  rw [values, List.mem_map]
  constructor
  · rintro ⟨p, hp, rfl⟩
    exact ⟨p.1, get?_eq_some.mpr hp⟩
  · rintro ⟨k, hk⟩
    exact ⟨_, get?_eq_some.mp hk, rfl⟩

@[simp] theorem length_values (m : OrdMap κ α) : m.values.length = m.length :=
  List.length_map ..

@[simp] theorem length_keys (m : OrdMap κ α) : m.keys.length = m.length :=
  List.length_map ..

/-- Inserting a fresh key adds one binding. -/
theorem length_insert_of_not_contains {m : OrdMap κ α} {k : κ} (v : α)
    (h : m.contains k = false) : (m.insert k v).length = m.length + 1 := by
  have hk : ∀ p ∈ m.entries, p.1 ≠ k := by
    intro p hp he
    rw [← Bool.not_eq_true, contains_iff] at h
    exact h ⟨p.2, get?_eq_some.mpr (he ▸ hp)⟩
  simp only [length, insert]
  generalize m.entries = l at hk
  induction l with
  | nil => rfl
  | cons p l ih =>
    simp only [insertEntries]
    split
    · rfl
    · rw [if_neg (fun he => hk p (List.mem_cons_self ..) he.symm)]
      simp only [List.length_cons, ih fun q hq => hk q (List.mem_cons_of_mem _ hq)]

/-- Erasing a bound key removes one binding. -/
theorem length_erase_of_contains {m : OrdMap κ α} {k : κ} (h : m.contains k = true) :
    (m.erase k).length + 1 = m.length := by
  obtain ⟨v, hv⟩ := contains_iff.mp h
  have hmem := get?_eq_some.mp hv
  have hnd : (m.entries.map Prod.fst).Nodup :=
    (m.keys_pairwise.imp fun hlt => hlt.ne)
  simp only [length, erase]
  generalize m.entries = l at hmem hnd
  induction l with
  | nil => cases hmem
  | cons p l ih =>
    rw [List.map_cons, List.nodup_cons] at hnd
    by_cases hp : p.1 = k
    · have hl : l.filter (fun q => decide (q.1 ≠ k)) = l := by
        rw [List.filter_eq_self]
        intro q hq
        have hne : q.1 ≠ k := fun he => hnd.1 (List.mem_map.mpr ⟨q, hq, he.trans hp.symm⟩)
        simpa using hne
      rw [List.filter_cons_of_neg (by simpa using hp), hl, List.length_cons]
    · have hin : (k, v) ∈ l := (List.mem_cons.mp hmem).resolve_left fun he => hp (he ▸ rfl)
      rw [List.filter_cons_of_pos (by simpa using hp), List.length_cons, List.length_cons,
        ih hin hnd.2]

/-- The search through the values returns the least key whose value passes. -/
theorem find?_values_eq_some {m : OrdMap κ α} {p : α → Bool} {v : α} :
    m.values.find? p = some v ↔
      p v = true ∧ ∃ k, m.get? k = some v ∧
        ∀ k' v', m.get? k' = some v' → k' < k → p v' = false := by
  have key : ∀ l : List (κ × α), l.Pairwise (fun a b => a.1 < b.1) →
      ((l.map Prod.snd).find? p = some v ↔ p v = true ∧ ∃ k, (k, v) ∈ l ∧
        ∀ q ∈ l, q.1 < k → p q.2 = false) := by
    intro l
    induction l with
    | nil => intro _; simp
    | cons a l ih =>
      intro hl
      obtain ⟨ha, hl⟩ := List.pairwise_cons.mp hl
      rw [List.map_cons]
      by_cases hpa : p a.2 = true
      · rw [List.find?_cons_of_pos hpa]
        constructor
        · rintro h
          cases h
          refine ⟨hpa, a.1, List.mem_cons_self .., ?_⟩
          intro q hq hlt
          rcases List.mem_cons.mp hq with rfl | hq
          · exact absurd hlt (lt_irrefl _)
          · exact absurd hlt (ha q hq).not_gt
        · rintro ⟨-, k, hk, hmin⟩
          rcases List.mem_cons.mp hk with he | hk
          · rw [← he]
          · have := hmin a (List.mem_cons_self ..) (ha _ hk)
            rw [hpa] at this
            cases this
      · rw [List.find?_cons_of_neg hpa, ih hl]
        refine and_congr_right fun hpv => exists_congr fun k => ?_
        constructor
        · rintro ⟨hk, hmin⟩
          refine ⟨List.mem_cons_of_mem _ hk, ?_⟩
          intro q hq hlt
          rcases List.mem_cons.mp hq with rfl | hq
          · simpa using hpa
          · exact hmin q hq hlt
        · rintro ⟨hk, hmin⟩
          refine ⟨?_, fun q hq hlt => hmin q (List.mem_cons_of_mem _ hq) hlt⟩
          rcases List.mem_cons.mp hk with he | hk
          · rw [← he] at hpa
            exact absurd hpv hpa
          · exact hk
  rw [values, key m.entries m.sorted]
  simp only [get?_eq_some]
  refine and_congr_right fun _ => exists_congr fun k => and_congr_right fun _ => ?_
  exact ⟨fun h k' v' hm hlt => h (k', v') hm hlt, fun h q hq hlt => h q.1 q.2 hq hlt⟩

/-- The greatest binding is a binding, and no key exceeds its key. -/
theorem last?_eq_some {m : OrdMap κ α} {k : κ} {v : α} (h : m.last? = some (k, v)) :
    m.get? k = some v ∧ ∀ k', m.contains k' = true → k' ≤ k := by
  obtain ⟨l, hl⟩ := List.getLast?_eq_some_iff.mp h
  refine ⟨get?_eq_some.mpr (by rw [hl]; simp), ?_⟩
  intro k' hk'
  obtain ⟨v', hv'⟩ := contains_iff.mp hk'
  have hin := get?_eq_some.mp hv'
  have hpw := m.sorted
  rw [hl] at hin hpw
  rcases List.mem_append.mp hin with hin | hin
  · exact ((List.pairwise_append.mp hpw).2.2 _ hin _ (List.mem_singleton_self _)).le
  · rw [List.mem_singleton] at hin
    exact (congrArg Prod.fst hin).le

/-- The greatest binding exists exactly in a nonempty map. -/
theorem last?_eq_none {m : OrdMap κ α} : m.last? = none ↔ ∀ k, m.contains k = false := by
  rw [last?, List.getLast?_eq_none_iff]
  constructor
  · intro h k
    rw [← Bool.not_eq_true, contains_iff]
    rintro ⟨v, hv⟩
    rw [get?_eq_some, h] at hv
    cases hv
  · intro h
    cases he : m.entries with
    | nil => rfl
    | cons p l =>
      have := h p.1
      rw [← Bool.not_eq_true, contains_iff] at this
      exact absurd ⟨p.2, get?_eq_some.mpr (he ▸ List.mem_cons_self ..)⟩ this

/-- The greatest binding is the one whose key no other exceeds. -/
theorem last?_eq_some_iff {m : OrdMap κ α} {k : κ} {v : α} :
    m.last? = some (k, v) ↔ m.get? k = some v ∧ ∀ k', m.contains k' = true → k' ≤ k := by
  refine ⟨last?_eq_some, ?_⟩
  rintro ⟨hg, hmax⟩
  cases hl : m.last? with
  | none =>
    have := last?_eq_none.mp hl k
    rw [contains, hg] at this
    cases this
  | some p =>
    obtain ⟨k', v'⟩ := p
    obtain ⟨hg', hmax'⟩ := last?_eq_some hl
    have hk : k' = k := le_antisymm (hmax k' (contains_iff.mpr ⟨v', hg'⟩))
      (hmax' k (contains_iff.mpr ⟨v, hg⟩))
    subst hk
    rw [hg] at hg'
    rw [Option.some.inj hg']

/-- A binding above all others becomes the greatest one. -/
theorem last?_insert_of_lt {m : OrdMap κ α} {k : κ} (v : α)
    (h : ∀ k', m.contains k' = true → k' < k) : (m.insert k v).last? = some (k, v) := by
  rw [last?_eq_some_iff]
  refine ⟨get?_insert_self .., fun k' hk' => ?_⟩
  rw [contains_insert, Bool.or_eq_true, decide_eq_true_eq] at hk'
  rcases hk' with rfl | hk'
  · exact le_rfl
  · exact (h k' hk').le

/-- Bindings of different keys are all collected. -/
theorem get?_ofList {l : List (κ × α)} (hl : (l.map Prod.fst).Nodup) {k : κ} {v : α} :
    (ofList l).get? k = some v ↔ (k, v) ∈ l := by
  induction l using List.reverseRecOn with
  | nil => simp [ofList]
  | append_singleton l p ih =>
    rw [List.map_append, List.nodup_append] at hl
    obtain ⟨hl, -, hne⟩ := hl
    have hsnoc : ofList (l ++ [p]) = (ofList l).insert p.1 p.2 := List.foldl_append ..
    rw [hsnoc, get?_insert, List.mem_append, List.mem_singleton]
    split
    · rename_i hk
      subst hk
      constructor
      · intro h
        exact Or.inr (Prod.ext rfl (Option.some.inj h).symm)
      · rintro (h | h)
        · exact absurd rfl (hne _ (List.mem_map_of_mem h) _ (List.mem_singleton_self _))
        · rw [← h]
    · rename_i hk
      rw [ih hl]
      exact ⟨Or.inl, fun h => h.resolve_right fun he => hk (congrArg Prod.fst he)⟩

/-- Adding the bindings of another map under keys that are missing: those of both, and its own
under a common key. -/
theorem get?_foldl_missing (m other : OrdMap κ α) (k : κ) :
    (other.entries.foldl (fun m p => if m.contains p.1 then m else m.insert p.1 p.2) m).get? k =
      (m.get? k).or (other.get? k) := by
  rw [get?.eq_def other]
  generalize other.entries = l
  induction l generalizing m with
  | nil => simp
  | cons p l ih =>
    rw [List.foldl_cons, ih, List.find?_cons]
    by_cases hin : m.contains p.1 = true
    · rw [if_pos hin]
      by_cases hk : p.1 = k
      · obtain ⟨v, hv⟩ := contains_iff.mp hin
        rw [← hk, hv, Option.some_or, Option.some_or]
      · simp [hk]
    · rw [if_neg hin, get?_insert]
      by_cases hk : p.1 = k
      · have hnone : m.get? k = none := by
          rw [← Option.not_isSome_iff_eq_none, ← hk]
          exact hin
        simp [hk, hnone]
      · simp [hk, Ne.symm hk]

/-- Collecting the listed bindings of a map gives the map back. -/
@[simp] theorem ofList_entries (m : OrdMap κ α) : ofList m.entries = m := by
  have hnodup : (m.entries.map Prod.fst).Nodup :=
    List.pairwise_map.mpr (m.sorted.imp fun h => h.ne)
  refine ext_get? fun k => ?_
  cases hg : m.get? k with
  | none =>
    cases ho : (ofList m.entries).get? k with
    | none => rfl
    | some v => exact absurd ((get?_ofList hnodup).mp ho) (get?_eq_none.mp hg v)
  | some v => exact (get?_ofList hnodup).mpr (get?_eq_some.mp hg)

/-- A map to the unit type is its keys. -/
theorem ofList_keys (m : OrdMap κ Unit) : ofList (m.keys.map fun k => (k, ())) = m := by
  have hkeys : m.keys.map (fun k => (k, ())) = m.entries := by
    rw [keys, List.map_map]
    exact List.map_id _
  rw [hkeys, ofList_entries]

@[simp] theorem isEmpty_iff {m : OrdMap κ α} : m.isEmpty = true ↔ ∀ k, m.get? k = none := by
  rw [isEmpty, List.isEmpty_iff]
  constructor
  · intro h k
    rw [get?_eq_none, h]
    exact fun _ => List.not_mem_nil
  · intro h
    cases he : m.entries with
    | nil => rfl
    | cons p l =>
      have hp : m.get? p.1 = some p.2 := get?_eq_some.mpr (he ▸ List.mem_cons_self ..)
      rw [h] at hp
      cases hp

/-- A map is filled when it holds some key. -/
theorem isEmpty_eq_false_iff {m : OrdMap κ α} :
    m.isEmpty = false ↔ ∃ k, m.contains k = true := by
  rw [← Bool.not_eq_true, isEmpty_iff, not_forall]
  refine exists_congr fun k => ?_
  rw [contains, Option.isSome_iff_ne_none]

/-- A map that holds all keys of a filled one is filled. -/
theorem isEmpty_eq_false_mono {m n : OrdMap κ α}
    (h : ∀ k, m.contains k = true → n.contains k = true) (hm : m.isEmpty = false) :
    n.isEmpty = false := by
  obtain ⟨k, hk⟩ := isEmpty_eq_false_iff.mp hm
  exact isEmpty_eq_false_iff.mpr ⟨k, h k hk⟩

@[simp] theorem isEmpty_insert (m : OrdMap κ α) (k : κ) (v : α) :
    (m.insert k v).isEmpty = false :=
  isEmpty_eq_false_iff.mpr ⟨k, contains_iff.mpr ⟨v, get?_insert_self m k v⟩⟩

/-- A map collected from some bindings is filled. -/
theorem isEmpty_ofList {l : List (κ × α)} (h : l ≠ []) : (ofList l).isEmpty = false := by
  obtain ⟨front, p, rfl⟩ := (List.eq_nil_or_concat l).resolve_left h
  rw [ofList, List.concat_eq_append, List.foldl_append]
  exact isEmpty_insert ..

end OrdMap

end Basis
