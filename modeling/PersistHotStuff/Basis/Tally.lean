import Mathlib.Algebra.BigOperators.Group.Multiset.Basic
import Mathlib.Algebra.Order.Group.Multiset
import Mathlib.Data.Multiset.UnionInter

/-!
# Tallies

What the seats of a list hold together, as a multiset. Replacing one seat
exchanges what it holds and nothing else. A list without repeated keys, each of
whose items occurs in a second list, holds no more than the second one.
-/

namespace Basis

variable {α β κ : Type}

/-- What the items of a list hold together. -/
def tally (f : α → Multiset β) (l : List α) : Multiset β := (l.map f).sum

@[simp] theorem tally_nil (f : α → Multiset β) : tally f [] = 0 := rfl

@[simp] theorem tally_cons (f : α → Multiset β) (a : α) (l : List α) :
    tally f (a :: l) = f a + tally f l := by
  rw [tally, List.map_cons, List.sum_cons, tally]

/-- Items that hold nothing. -/
theorem tally_eq_zero {f : α → Multiset β} {l : List α} (h : ∀ a ∈ l, f a = 0) :
    tally f l = 0 := by
  induction l with
  | nil => rfl
  | cons a l ih =>
    obtain ⟨ha, hl⟩ := List.forall_mem_cons.mp h
    rw [tally_cons, ha, ih hl, zero_add]

theorem tally_append (f : α → Multiset β) (l l' : List α) :
    tally f (l ++ l') = tally f l + tally f l' := by
  rw [tally, List.map_append, List.sum_append, tally, tally]

/-- One item is exchanged for another. -/
theorem tally_set {f : α → Multiset β} {l : List α} {i : Nat} {a : α} (h : l[i]? = some a)
    (a' : α) : tally f (l.set i a') + f a = tally f l + f a' := by
  induction l generalizing i with
  | nil => cases h
  | cons b l ih =>
    cases i with
    | zero =>
      rw [List.getElem?_cons_zero, Option.some.injEq] at h
      subst h
      rw [List.set_cons_zero, tally_cons, tally_cons, add_comm (f a'), add_comm (f b)]
      exact add_right_comm _ _ _
    | succ i =>
      rw [List.getElem?_cons_succ] at h
      rw [List.set_cons_succ, tally_cons, tally_cons, add_assoc, ih h, add_assoc]

/-- An item that holds no more takes the place of one. -/
theorem tally_set_le {f : α → Multiset β} {l : List α} {i : Nat} {a a' : α}
    (h : l[i]? = some a) (hle : f a' ≤ f a) : tally f (l.set i a') ≤ tally f l := by
  refine le_of_add_le_add_right (a := f a) ?_
  rw [tally_set h]
  exact add_le_add_right hle _

/-- One item is changed in its place. -/
theorem tally_modify {f : α → Multiset β} {l : List α} {i : Nat} {a : α} (h : l[i]? = some a)
    (g : α → α) : tally f (l.modify i g) + f a = tally f l + f (g a) := by
  rw [List.modify_eq_set_getElem?, h]
  exact tally_set h (g a)

/-- An item that gains something makes the list hold no more than that besides. -/
theorem tally_modify_le {f : α → Multiset β} {g : α → α} {gain : Multiset β}
    (h : ∀ a, f (g a) = f a + gain) (l : List α) (i : Nat) :
    tally f (l.modify i g) ≤ tally f l + gain := by
  induction l generalizing i with
  | nil =>
    rw [List.modify_nil]
    exact Multiset.le_add_right _ _
  | cons a l ih =>
    cases i with
    | zero =>
      rw [List.modify_zero_cons, tally_cons, tally_cons, h, add_right_comm]
    | succ i =>
      rw [List.modify_succ_cons, tally_cons, tally_cons, add_assoc]
      exact add_le_add_right (ih i) _

/-- Lists that hold the same seat by seat. -/
theorem tally_congr {f : α → Multiset β} {l l' : List α} (hlen : l'.length = l.length)
    (h : ∀ (i : Nat) a, l[i]? = some a → ∃ a', l'[i]? = some a' ∧ f a' = f a) :
    tally f l' = tally f l := by
  have hmap : l'.map f = l.map f := by
    refine List.ext_getElem? fun i => ?_
    rw [List.getElem?_map, List.getElem?_map]
    cases hi : l[i]? with
    | none =>
      rw [List.getElem?_eq_none_iff, ← hlen, ← List.getElem?_eq_none_iff] at hi
      rw [hi]
    | some a =>
      obtain ⟨a', ha', hsame⟩ := h i a hi
      rw [ha', Option.map_some, Option.map_some, hsame]
  rw [tally, hmap, tally]

/-- Items with different keys, each found in another list under its key. -/
theorem map_le_map_of_keys (key : α → κ) (value : α → β) {l l' : List α}
    (hdistinct : (l.map key).Nodup)
    (h : ∀ a ∈ l, ∃ b ∈ l', key b = key a ∧ value b = value a) :
    (l.map value : Multiset β) ≤ (l'.map value : Multiset β) := by
  have hpairs : (l.map fun a => (key a, value a)).Nodup := by
    refine List.Nodup.of_map Prod.fst ?_
    rwa [List.map_map]
  have hsub : (l.map fun a => (key a, value a)) ⊆ l'.map fun a => (key a, value a) := by
    intro p hp
    obtain ⟨a, ha, rfl⟩ := List.mem_map.mp hp
    obtain ⟨b, hb, hkey, hvalue⟩ := h a ha
    exact List.mem_map.mpr ⟨b, hb, Prod.ext hkey hvalue⟩
  have hle := Multiset.map_le_map (f := Prod.snd)
    (Multiset.coe_le.mpr (List.subperm_of_subset hpairs hsub))
  rwa [Multiset.map_coe, Multiset.map_coe, List.map_map, List.map_map] at hle

end Basis
