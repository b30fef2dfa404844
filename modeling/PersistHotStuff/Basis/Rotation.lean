import Mathlib.Data.List.Basic
import Mathlib.Data.List.Nodup
import Mathlib.Order.Interval.Finset.Nat

/-!
# Taking turns

A list of participants takes turns: at time `v` it is the turn of the entry at
`v` modulo the length. In every window as long as the list each participant has
exactly one turn, wherever the window starts.
-/

namespace Basis

variable {α : Type*}

/-- Whose turn it is; nobody's, if the list is empty. -/
def turn? (l : List α) (v : Nat) : Option α := l[v % l.length]?

theorem exists_turn? {l : List α} (hne : l ≠ []) (v : Nat) : ∃ a, turn? l v = some a :=
  ⟨_, List.getElem?_eq_getElem (Nat.mod_lt v (List.length_pos_iff.mpr hne))⟩

theorem mem_of_turn? {l : List α} {v : Nat} {a : α} (h : turn? l v = some a) : a ∈ l :=
  List.mem_of_getElem? h

/-- Two times of one window with the same turn are the same time. -/
theorem turn?_injOn {l : List α} (hnodup : l.Nodup) {start v w : Nat}
    (hv : v ∈ Set.Ico start (start + l.length)) (hw : w ∈ Set.Ico start (start + l.length))
    (h : turn? l v = turn? l w) : v = w := by
  have hpos : 0 < l.length := by
    obtain ⟨hle, hlt⟩ := hv
    omega
  have hmod : v % l.length = w % l.length :=
    (List.getElem?_inj (Nat.mod_lt v hpos) hnodup).mp h
  exact Nat.mod_injOn_Ico start l.length (Finset.mem_coe.mpr (Finset.mem_Ico.mpr hv))
    (Finset.mem_coe.mpr (Finset.mem_Ico.mpr hw)) hmod

/-- Everybody has a turn in every window. -/
theorem exists_turn?_of_mem {l : List α} {a : α} (ha : a ∈ l) (start : Nat) :
    ∃ v ∈ Set.Ico start (start + l.length), turn? l v = some a := by
  obtain ⟨i, hi⟩ := List.mem_iff_getElem?.mp ha
  have hlt : i < l.length := (List.getElem?_eq_some_iff.mp hi).1
  have himage : i ∈ (Finset.Ico start (start + l.length)).image (· % l.length) := by
    rw [Nat.image_Ico_mod]
    exact Finset.mem_range.mpr hlt
  obtain ⟨v, hv, hmod⟩ := Finset.mem_image.mp himage
  exact ⟨v, Finset.mem_Ico.mp hv, (congrArg (l[·]?) hmod).trans hi⟩

/-- In `q` windows everybody has at least `q` turns. -/
theorem le_countP_turns {n i : Nat} (hi : i < n) (start q : Nat) {k : Nat} (hk : n * q ≤ k) :
    q ≤ (List.range' start k).countP fun v => v % n == i := by
  induction q generalizing start k with
  | zero => exact Nat.zero_le _
  | succ q ih =>
    obtain ⟨rest, rfl⟩ : ∃ rest, k = n + rest := ⟨k - n, by
      rw [Nat.mul_succ] at hk
      omega⟩
    rw [← List.range'_append_1, List.countP_append, Nat.add_comm q]
    refine Nat.add_le_add ?_ (ih (start + n) (by rw [Nat.mul_succ] at hk; omega))
    -- one turn in the first window
    have himage : i ∈ (Finset.Ico start (start + n)).image (· % n) := by
      rw [Nat.image_Ico_mod]
      exact Finset.mem_range.mpr hi
    obtain ⟨v, hv, hmod⟩ := Finset.mem_image.mp himage
    obtain ⟨hle, hlt⟩ := Finset.mem_Ico.mp hv
    exact List.countP_pos_iff.mpr ⟨v, List.mem_range'_1.mpr ⟨hle, hlt⟩, beq_iff_eq.mpr hmod⟩

/-- Those of a group have, in a window, at least as many turns as they are. -/
theorem card_le_countP_turns {n : Nat} {group : Finset Nat} (hgroup : group ⊆ Finset.range n)
    (start : Nat) {k : Nat} (hk : n ≤ k) :
    group.card ≤ (List.range' start k).countP fun v => decide (v % n ∈ group) := by
  rw [List.countP_eq_length_filter, ← List.length_map (· % n)]
  refine (Finset.card_le_card fun i hi => List.mem_toFinset.mpr ?_).trans (List.toFinset_card_le _)
  have hturn := le_countP_turns (Finset.mem_range.mp (hgroup hi)) start 1 (n.mul_one.symm ▸ hk)
  obtain ⟨v, hv, hmod⟩ := List.countP_pos_iff.mp hturn
  rw [beq_iff_eq] at hmod
  exact List.mem_map.mpr ⟨v, List.mem_filter.mpr ⟨hv, decide_eq_true (hmod.symm ▸ hi)⟩, hmod⟩

/-- A function that names whose turn it is maps every window one-to-one onto the participants. -/
theorem bijOn_turn {l : List α} (hnodup : l.Nodup) {f : Nat → α}
    (hf : ∀ v, turn? l v = some (f v)) (start : Nat) :
    Set.BijOn f (Set.Ico start (start + l.length)) {a | a ∈ l} := by
  refine ⟨fun v _ => mem_of_turn? (hf v), fun v hv w hw he => ?_, fun a ha => ?_⟩
  · exact turn?_injOn hnodup hv hw (by rw [hf, hf, he])
  · obtain ⟨v, hv, hturn⟩ := exists_turn?_of_mem ha start
    exact ⟨v, hv, Option.some.inj ((hf v).symm.trans hturn)⟩

/-- In an increasing list an entry stands behind those that are less. -/
theorem getElem?_eq_some_iff_countP [LinearOrder α] {l : List α} (hl : l.Pairwise (· < ·)) {i : Nat}
    {a : α} : l[i]? = some a ↔ a ∈ l ∧ l.countP (· < a) = i := by
  induction l generalizing i with
  | nil => simp
  | cons b l ih =>
    obtain ⟨hb, hl⟩ := List.pairwise_cons.mp hl
    rw [List.countP_cons, List.mem_cons]
    cases i with
    | zero =>
      rw [List.getElem?_cons_zero, Option.some.injEq]
      constructor
      · rintro rfl
        refine ⟨.inl rfl, ?_⟩
        rw [if_neg (by simp), Nat.add_zero, List.countP_eq_zero]
        exact fun c hc => by simpa using (hb c hc).le
      · rintro ⟨ha, hnone⟩
        rcases ha with rfl | ha
        · rfl
        · rw [if_pos (by simpa using hb a ha)] at hnone
          cases hnone
    | succ i =>
      rw [List.getElem?_cons_succ, ih hl]
      constructor
      · rintro ⟨ha, hcount⟩
        rw [if_pos (by simpa using hb a ha), hcount]
        exact ⟨.inr ha, rfl⟩
      · rintro ⟨ha, hcount⟩
        rcases ha with rfl | ha
        · have hnone : l.countP (· < a) = 0 :=
            List.countP_eq_zero.mpr fun c hc => by simpa using (hb c hc).le
          rw [if_neg (by simp), hnone] at hcount
          cases hcount
        · rw [if_pos (by simpa using hb a ha)] at hcount
          exact ⟨ha, Nat.succ.inj hcount⟩

/-- When the turn of an increasing list is somebody's. -/
theorem turn?_eq_some_iff [LinearOrder α] {l : List α} (hl : l.Pairwise (· < ·)) {v : Nat} {a : α} :
    turn? l v = some a ↔ a ∈ l ∧ l.countP (· < a) = v % l.length :=
  getElem?_eq_some_iff_countP hl

end Basis
