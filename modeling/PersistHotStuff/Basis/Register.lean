import Mathlib.Order.Lattice

/-!
# Registers

A register is written unconditionally or raised: a raise counts only when the
register is empty or holds something of lower rank. Repeating all the writes of
a log on the register they led to changes nothing.
-/

namespace Basis

/-- A write to a register. -/
inductive Write (α : Type)
  | set (a : α)
  | raise (a : α)

namespace Write

variable {α κ : Type} [LinearOrder κ] (rank : α → κ)

/-- The register after a write. -/
def apply (cur : Option α) : Write α → Option α
  | set a => some a
  | raise a =>
      match cur with
      | none => some a
      | some c => if rank c < rank a then some a else some c

/-- The register after a list of writes. -/
def applyAll (cur : Option α) (ws : List (Write α)) : Option α := ws.foldl (apply rank) cur

/-- The register holds something of at least a given rank. -/
def Dominates (cur : Option α) (a : α) : Prop := ∃ c, cur = some c ∧ rank a ≤ rank c

variable {rank}

/-- A dominated raise changes nothing. -/
theorem apply_raise_of_dominates {cur : Option α} {a : α} (h : Dominates rank cur a) :
    apply rank cur (raise a) = cur := by
  obtain ⟨c, rfl, hle⟩ := h
  simp only [apply, if_neg hle.not_gt]

/-- A raise dominates itself, and everything that was dominated stays so. -/
theorem dominates_apply_raise (cur : Option α) (a : α) :
    Dominates rank (apply rank cur (raise a)) a ∧
      ∀ b, Dominates rank cur b → Dominates rank (apply rank cur (raise a)) b := by
  cases cur with
  | none => exact ⟨⟨a, rfl, le_rfl⟩, fun b ⟨c, hc, _⟩ => by cases hc⟩
  | some c =>
    simp only [apply]
    split
    · rename_i hlt
      refine ⟨⟨a, rfl, le_rfl⟩, ?_⟩
      rintro b ⟨d, hd, hle⟩
      cases hd
      exact ⟨a, rfl, hle.trans hlt.le⟩
    · rename_i hge
      exact ⟨⟨c, rfl, not_lt.mp hge⟩, fun b hb => hb⟩

/-- With an unconditional write among them, the result does not depend on the start. -/
theorem applyAll_of_set {ws : List (Write α)} {a : α} (h : set a ∈ ws) (x y : Option α) :
    applyAll rank x ws = applyAll rank y ws := by
  induction ws generalizing x y with
  | nil => cases h
  | cons w ws ih =>
    rcases List.mem_cons.mp h with rfl | h
    · rfl
    · exact ih h _ _

/-- Raises alone end in something that dominates each of them. -/
theorem dominates_applyAll {ws : List (Write α)} (hraise : ∀ a, set a ∉ ws) (x : Option α) :
    (∀ a, raise a ∈ ws → Dominates rank (applyAll rank x ws) a) ∧
      ∀ b, Dominates rank x b → Dominates rank (applyAll rank x ws) b := by
  induction ws generalizing x with
  | nil => exact ⟨fun a ha => (by cases ha), fun b hb => hb⟩
  | cons w ws ih =>
    cases w with
    | set a => exact absurd (List.mem_cons_self ..) (hraise a)
    | raise a =>
      obtain ⟨hself, hkeep⟩ : Dominates rank (apply rank x (raise a)) a ∧
          ∀ b, Dominates rank x b → Dominates rank (apply rank x (raise a)) b :=
        dominates_apply_raise x a
      obtain ⟨hin, hrest⟩ := ih (fun b hb => hraise b (List.mem_cons_of_mem _ hb))
        (apply rank x (raise a))
      refine ⟨fun b hb => ?_, fun b hb => hrest b (hkeep b hb)⟩
      rcases List.mem_cons.mp hb with he | hb
      · obtain rfl := raise.inj he
        exact hrest b hself
      · exact hin b hb

/-- Writes repeated on their own result change nothing. -/
theorem applyAll_again (ws : List (Write α)) (x : Option α) :
    applyAll rank (applyAll rank x ws) ws = applyAll rank x ws := by
  by_cases hset : ∃ a, set a ∈ ws
  · obtain ⟨a, ha⟩ := hset
    exact applyAll_of_set ha _ _
  · have hraise : ∀ a, set a ∉ ws := fun a ha => hset ⟨a, ha⟩
    have hdom : ∀ a, raise a ∈ ws → Dominates rank (applyAll rank x ws) a :=
      (dominates_applyAll hraise x).1
    generalize applyAll rank x ws = y at hdom
    induction ws with
    | nil => rfl
    | cons w ws ih =>
      cases w with
      | set a => exact absurd (List.mem_cons_self ..) (hraise a)
      | raise a =>
        have hfix : apply rank y (raise a) = y :=
          apply_raise_of_dominates (hdom a (List.mem_cons_self ..))
        show applyAll rank (apply rank y (raise a)) ws = y
        rw [hfix]
        exact ih (fun ⟨b, hb⟩ => hset ⟨b, List.mem_cons_of_mem _ hb⟩)
          (fun b hb => hraise b (List.mem_cons_of_mem _ hb))
          fun b hb => hdom b (List.mem_cons_of_mem _ hb)

end Write

end Basis
