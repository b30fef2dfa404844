import Mathlib.Data.List.Chain
import Mathlib.Order.Lattice

/-!
# Chains in a sorted list

Items with a key and an optional parent key. A list sorted by key is a chain,
each item the parent of the next, exactly when every item but the least has its
parent below it in the list and no two of them have the same parent.
-/

namespace Basis

variable {α κ : Type} (key : α → κ) (parent : α → Option κ)

/-- Each item is the parent of the next. -/
def Chained (l : List α) : Prop := l.IsChain fun a b => parent b = some (key a)

/-- Two chains join when the last item of one is the parent of the first of the other. -/
theorem chained_append {l m : List α} :
    Chained key parent (l ++ m) ↔ Chained key parent l ∧ Chained key parent m ∧
      ∀ a ∈ l.getLast?, ∀ b ∈ m.head?, parent b = some (key a) := List.isChain_append

variable [LinearOrder κ]

/-- An item other than the least of a list. -/
def Later (l : List α) (b : α) : Prop := ∃ a ∈ l, key a < key b

/-- Every item but the least has a parent of lower key in the list, and none shares it. -/
structure IsPath (l : List α) : Prop where
  below : ∀ b ∈ l, Later key l b → ∃ a ∈ l, key a < key b ∧ parent b = some (key a)
  unshared : ∀ b ∈ l, ∀ c ∈ l, Later key l b → Later key l c → parent b = parent c → b = c

variable {key parent}

/-- The two conditions on a path. -/
theorem isPath_iff {l : List α} :
    IsPath key parent l ↔
      (∀ b ∈ l, Later key l b → ∃ a ∈ l, key a < key b ∧ parent b = some (key a)) ∧
        ∀ b ∈ l, ∀ c ∈ l, Later key l b → Later key l c → parent b = parent c → b = c :=
  ⟨fun h => ⟨h.below, h.unshared⟩, fun h => ⟨h.1, h.2⟩⟩

instance (l : List α) (b : α) : Decidable (Later key l b) :=
  inferInstanceAs (Decidable (∃ a ∈ l, key a < key b))

instance [DecidableEq α] (l : List α) : Decidable (IsPath key parent l) :=
  decidable_of_iff' _ isPath_iff

private theorem index_lt_of_key_lt {l : List α} (hl : l.Pairwise fun a b => key a < key b)
    {i j : Nat} (hi : i < l.length) (hj : j < l.length) (h : key l[i] < key l[j]) : i < j := by
  rcases lt_trichotomy i j with hij | rfl | hji
  · exact hij
  · exact absurd h (lt_irrefl _)
  · exact absurd h (List.pairwise_iff_getElem.mp hl j i hj hi hji).not_gt

private theorem index_eq_of_key_eq {l : List α} (hl : l.Pairwise fun a b => key a < key b)
    {i j : Nat} (hi : i < l.length) (hj : j < l.length) (h : key l[i] = key l[j]) : i = j := by
  rcases lt_trichotomy i j with hij | hij | hji
  · exact absurd h (List.pairwise_iff_getElem.mp hl i j hi hj hij).ne
  · exact hij
  · exact absurd h (List.pairwise_iff_getElem.mp hl j i hj hi hji).ne'

private theorem later_succ {l : List α} (hl : l.Pairwise fun a b => key a < key b) {i : Nat}
    (h : i + 1 < l.length) : Later key l l[i + 1] :=
  ⟨l[i], List.getElem_mem _, List.pairwise_iff_getElem.mp hl i (i + 1) (by omega) h (by omega)⟩

/-- In a sorted list chains are paths. -/
theorem chained_iff_isPath {l : List α} (hl : l.Pairwise fun a b => key a < key b) :
    Chained key parent l ↔ IsPath key parent l := by
  have hpos : ∀ {i : Nat} (hi : i < l.length), Later key l l[i] → ∃ k, i = k + 1 := by
    rintro i hi ⟨a, ha, hlt⟩
    obtain ⟨j, hj, rfl⟩ := List.mem_iff_getElem.mp ha
    have := index_lt_of_key_lt hl hj hi hlt
    exact ⟨i - 1, by omega⟩
  rw [Chained, List.isChain_iff_getElem]
  constructor
  · intro h
    constructor
    · intro b hb hlater
      obtain ⟨i, hi, rfl⟩ := List.mem_iff_getElem.mp hb
      obtain ⟨k, rfl⟩ := hpos hi hlater
      exact ⟨l[k], List.getElem_mem _,
        List.pairwise_iff_getElem.mp hl k (k + 1) (by omega) hi (by omega), h k hi⟩
    · intro b hb c hc hbl hcl he
      obtain ⟨i, hi, rfl⟩ := List.mem_iff_getElem.mp hb
      obtain ⟨j, hj, rfl⟩ := List.mem_iff_getElem.mp hc
      obtain ⟨k, rfl⟩ := hpos hi hbl
      obtain ⟨m, rfl⟩ := hpos hj hcl
      rw [h k hi, h m hj] at he
      have hkm := index_eq_of_key_eq hl (i := k) (j := m) (by omega) (by omega) (Option.some.inj he)
      subst hkm
      rfl
  · intro h i
    -- a parent further below would already be the parent of an earlier item
    induction i using Nat.strong_induction_on with
    | _ i ih =>
      intro hi
      obtain ⟨a, ha, hlt, hp⟩ := h.below _ (List.getElem_mem hi) (later_succ hl hi)
      obtain ⟨j, hj, rfl⟩ := List.mem_iff_getElem.mp ha
      have hji := index_lt_of_key_lt hl hj hi hlt
      rcases Nat.lt_succ_iff_lt_or_eq.mp hji with hlt' | rfl
      · have hj1 : j + 1 < l.length := by omega
        have he := h.unshared _ (List.getElem_mem hi) _ (List.getElem_mem hj1) (later_succ hl hi)
          (later_succ hl hj1) (hp.trans (ih j hlt' hj1).symm)
        have := index_eq_of_key_eq hl hi hj1 (congrArg key he)
        omega
      · exact hp

end Basis
