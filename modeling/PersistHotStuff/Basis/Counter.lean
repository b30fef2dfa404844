import Mathlib.Data.Nat.Basic
import Mathlib.Data.List.Basic

/-!
# A counter that stays ahead

A machine counter that is moved past every value it is shown, and wraps at its
modulus. Without wrapping it is the least bound; a value that wraps it starts it
over.
-/

namespace Basis

/-- Move the counter past a value, modulo `m`. -/
def overtake (m n h : Nat) : Nat := if n ≤ h then (h + 1) % m else n

/-- A counter stays below its modulus. -/
theorem overtake_lt {m n : Nat} (hn : n < m) (h : Nat) : overtake m n h < m := by
  unfold overtake
  split
  · exact Nat.mod_lt _ (by omega)
  · exact hn

theorem foldl_overtake_lt {m n : Nat} (hn : n < m) (hs : List Nat) :
    hs.foldl (overtake m) n < m := by
  induction hs generalizing n with
  | nil => exact hn
  | cons h hs ih => exact ih (overtake_lt hn h)

/-- A counter that has not wrapped is the least number above its start and all values shown. -/
theorem foldl_overtake_spec {m : Nat} (n : Nat) {hs : List Nat} (hsmall : ∀ h ∈ hs, h + 1 < m) :
    n ≤ hs.foldl (overtake m) n ∧ (∀ h ∈ hs, h < hs.foldl (overtake m) n) ∧
      (hs.foldl (overtake m) n = n ∨ ∃ h ∈ hs, h + 1 = hs.foldl (overtake m) n) := by
  induction hs generalizing n with
  | nil => exact ⟨le_rfl, List.forall_mem_nil _, .inl rfl⟩
  | cons h hs ih =>
    obtain ⟨hh, hrest⟩ := List.forall_mem_cons.mp hsmall
    obtain ⟨hle, habove, hleast⟩ := ih (overtake m n h) hrest
    rw [List.foldl_cons]
    have hstep : overtake m n h = max n (h + 1) := by
      unfold overtake
      split
      · rw [Nat.mod_eq_of_lt hh]
        omega
      · omega
    rw [hstep] at hle habove hleast ⊢
    refine ⟨by omega, List.forall_mem_cons.mpr ⟨by omega, habove⟩, ?_⟩
    rcases hleast with heq | ⟨k, hk, heq⟩
    · rcases le_total n (h + 1) with hn | hn
      · exact .inr ⟨h, List.mem_cons_self .., by omega⟩
      · exact .inl (by omega)
    · exact .inr ⟨k, List.mem_cons_of_mem h hk, heq⟩

/-- How values can leave the counter where it was: all of them are below it; or one wraps it, and
behind that one the values lead back to it. -/
def LeavesCounter (m n : Nat) (hs : List Nat) : Prop :=
  (∀ h ∈ hs, h < n) ∨
    ∃ before w behind, hs = before ++ w :: behind ∧ m ≤ w + 1 ∧ (∀ h ∈ behind, h < n) ∧
      (w + 1) % m ≤ n ∧ (n = (w + 1) % m ∨ ∃ h ∈ behind, h + 1 = n)

/-- A list has a last value that wraps the counter, or none. -/
theorem exists_last_wrap (m : Nat) (hs : List Nat) :
    (∀ h ∈ hs, h + 1 < m) ∨
      ∃ before w behind, hs = before ++ w :: behind ∧ m ≤ w + 1 ∧ ∀ h ∈ behind, h + 1 < m := by
  induction hs with
  | nil => exact .inl fun h hh => by cases hh
  | cons h hs ih =>
    rcases ih with hsmall | ⟨before, w, behind, rfl, hw, hbehind⟩
    · by_cases hh : h + 1 < m
      · exact .inl (List.forall_mem_cons.mpr ⟨hh, hsmall⟩)
      · exact .inr ⟨[], h, hs, rfl, not_lt.mp hh, hsmall⟩
    · exact .inr ⟨h :: before, w, behind, rfl, hw, hbehind⟩

/-- The counter behind a value that wraps it. -/
theorem foldl_overtake_wrap {m n w : Nat} (hn : n < m) (hw : m ≤ w + 1) (before behind : List Nat) :
    (before ++ w :: behind).foldl (overtake m) n = behind.foldl (overtake m) ((w + 1) % m) := by
  have hlt := foldl_overtake_lt hn before
  rw [List.foldl_append, List.foldl_cons, overtake, if_pos (by omega)]

/-- The counter ends where it started exactly in these ways. -/
theorem foldl_overtake_eq_iff {m n : Nat} (hn : n < m) (hs : List Nat) :
    hs.foldl (overtake m) n = n ↔ LeavesCounter m n hs := by
  constructor
  · intro heq
    rcases exists_last_wrap m hs with hsmall | ⟨before, w, behind, rfl, hw, hbehind⟩
    · obtain ⟨-, habove, -⟩ := foldl_overtake_spec n hsmall
      rw [heq] at habove
      exact .inl habove
    · rw [foldl_overtake_wrap hn hw] at heq
      obtain ⟨hle, habove, hleast⟩ := foldl_overtake_spec ((w + 1) % m) hbehind
      rw [heq] at hle habove hleast
      exact .inr ⟨before, w, behind, rfl, hw, habove, hle, hleast⟩
  · rintro (hbelow | ⟨before, w, behind, rfl, hw, hbelow, hle, hleast⟩)
    · have hsmall : ∀ h ∈ hs, h + 1 < m := fun h hh => lt_of_le_of_lt (hbelow h hh) hn
      obtain ⟨hge, -, hends⟩ := foldl_overtake_spec n hsmall
      rcases hends with heq | ⟨h, hh, heq⟩
      · exact heq
      · have := hbelow h hh
        omega
    · rw [foldl_overtake_wrap hn hw]
      have hsmall : ∀ h ∈ behind, h + 1 < m := fun h hh => lt_of_le_of_lt (hbelow h hh) hn
      obtain ⟨hge, habove, hends⟩ := foldl_overtake_spec ((w + 1) % m) hsmall
      have hupper : behind.foldl (overtake m) ((w + 1) % m) ≤ n := by
        rcases hends with heq | ⟨h, hh, heq⟩
        · omega
        · have := hbelow h hh
          omega
      rcases hleast with heq | ⟨h, hh, heq⟩
      · omega
      · have := habove h hh
        omega

end Basis
