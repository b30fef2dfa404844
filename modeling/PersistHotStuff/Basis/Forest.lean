import Mathlib.Data.Finset.Card
import Mathlib.Data.Fintype.Card
import Mathlib.Logic.Function.Basic
import Mathlib.Logic.Relation

/-!
# Forests of parent links

A partial map gives each of its keys a parent or none. It is a forest when
every key climbs to a key without a parent. Heights then fall along every link,
so there are no cycles, and no climb is longer than there are keys. Linking a
key anew keeps the forest exactly when the new parent is a key that does not
climb to it.
-/

namespace Basis

variable {κ : Type*}

/-- The parent link of a map of optional parents. -/
def Link (links : κ → Option (Option κ)) (k p : κ) : Prop := links k = some (some p)

/-- A key climbs to a root in exactly this many steps. -/
inductive HasHeight (links : κ → Option (Option κ)) : κ → Nat → Prop
  | root {k : κ} : links k = some none → HasHeight links k 0
  | step {k p : κ} {m : Nat} : Link links k p → HasHeight links p m → HasHeight links k (m + 1)

/-- Every key climbs to a root. -/
def Forest (links : κ → Option (Option κ)) : Prop :=
  ∀ k, links k ≠ none → ∃ m, HasHeight links k m

/-- Whether a key climbs to a root in at most a number of steps. -/
def reachesRoot (links : κ → Option (Option κ)) : Nat → κ → Bool
  | 0, k =>
      match links k with
      | some none => true
      | _ => false
  | m + 1, k =>
      match links k with
      | none => false
      | some none => true
      | some (some p) => reachesRoot links m p

/-- Whether a key is met on the way up from another, within a number of steps. -/
def climbsTo [DecidableEq κ] (links : κ → Option (Option κ)) (target : κ) : Nat → κ → Bool
  | 0, k => decide (k = target)
  | m + 1, k =>
      decide (k = target) ||
        match links k with
        | some (some p) => climbsTo links target m p
        | _ => false

variable {links : κ → Option (Option κ)}

theorem HasHeight.unique {k : κ} {m n : Nat} (hm : HasHeight links k m)
    (hn : HasHeight links k n) : m = n := by
  induction hm generalizing n with
  | root hk =>
    cases hn with
    | root => rfl
    | step hlink =>
      rw [Link, hk] at hlink
      cases hlink
  | step hlink hp ih =>
    cases hn with
    | root hk =>
      rw [Link, hk] at hlink
      cases hlink
    | step hlink' hp' =>
      rw [Link, hlink] at hlink'
      cases hlink'
      rw [ih hp']

theorem HasHeight.present {k : κ} {m : Nat} (h : HasHeight links k m) : links k ≠ none := by
  cases h with
  | root hk => simp [hk]
  | step hlink => simp [show links k = some (some _) from hlink]

/-- The parent of a key of height one more has the height below. -/
theorem HasHeight.parent {k p : κ} {m : Nat} (h : HasHeight links k m) (hlink : Link links k p) :
    ∃ n, m = n + 1 ∧ HasHeight links p n := by
  cases h with
  | root hk =>
    rw [Link, hk] at hlink
    cases hlink
  | step hlink' hp =>
    rw [Link, hlink] at hlink'
    cases hlink'
    exact ⟨_, rfl, hp⟩

/-- The parents in a forest are keys. -/
theorem Forest.parent_present (h : Forest links) {k p : κ} (hlink : Link links k p) :
    links p ≠ none := by
  obtain ⟨m, hm⟩ := h k (by simp [show links k = some (some p) from hlink])
  obtain ⟨n, -, hn⟩ := hm.parent hlink
  exact hn.present

/-- Climbing does not gain height. -/
theorem HasHeight.climb {k a : κ} {m : Nat} (h : HasHeight links k m)
    (hclimb : Relation.ReflTransGen (Link links) k a) : ∃ n ≤ m, HasHeight links a n := by
  induction hclimb with
  | refl => exact ⟨m, le_rfl, h⟩
  | tail hclimb hlink ih =>
    obtain ⟨n, hn, ha⟩ := ih
    obtain ⟨n', rfl, ha'⟩ := ha.parent hlink
    exact ⟨n', by omega, ha'⟩

/-- No key of a forest is its own ancestor. -/
theorem Forest.acyclic (h : Forest links) (k : κ) : ¬ Relation.TransGen (Link links) k k := by
  intro hcycle
  obtain ⟨p, hlink, hclimb⟩ := Relation.TransGen.head'_iff.mp hcycle
  obtain ⟨m, hm⟩ := h k (by simp [show links k = some (some p) from hlink])
  obtain ⟨n, rfl, hn⟩ := hm.parent hlink
  obtain ⟨n', hle, hk⟩ := hn.climb hclimb
  have := hk.unique hm
  omega

/-- All heights below that of a key are taken by its ancestors. -/
theorem HasHeight.exists_below {k : κ} {m : Nat} (h : HasHeight links k m) {n : Nat} (hn : n ≤ m) :
    ∃ a, HasHeight links a n := by
  induction h with
  | root hk =>
    obtain rfl := Nat.le_zero.mp hn
    exact ⟨_, HasHeight.root hk⟩
  | @step k p m hlink hp ih =>
    rcases Nat.lt_or_eq_of_le hn with hlt | rfl
    · exact ih (Nat.le_of_lt_succ hlt)
    · exact ⟨_, HasHeight.step hlink hp⟩

/-- A height is below the number of keys. -/
theorem HasHeight.lt_card {keys : Finset κ} (hkeys : ∀ k, links k ≠ none → k ∈ keys) {k : κ}
    {m : Nat} (h : HasHeight links k m) : m < keys.card := by
  classical
  -- one key for each height up to this one
  choose key hkey using fun n : Fin (m + 1) => h.exists_below (Nat.le_of_lt_succ n.isLt)
  have hinj : Function.Injective key := by
    intro i j he
    have hj := hkey j
    rw [← he] at hj
    exact Fin.ext ((hkey i).unique hj)
  have hcard := Finset.card_le_card_of_injOn key (s := Finset.univ) (t := keys)
    (fun i _ => hkeys _ (hkey i).present) hinj.injOn
  rw [Finset.card_univ, Fintype.card_fin] at hcard
  exact hcard

theorem reachesRoot_iff {m : Nat} {k : κ} :
    reachesRoot links m k = true ↔ ∃ n ≤ m, HasHeight links k n := by
  induction m generalizing k with
  | zero =>
    rw [reachesRoot]
    constructor
    · intro h
      split at h
      · exact ⟨0, le_rfl, HasHeight.root ‹_›⟩
      · cases h
    · rintro ⟨n, hn, h⟩
      obtain rfl := Nat.le_zero.mp hn
      cases h with
      | root hk => rw [hk]
  | succ m ih =>
    rw [reachesRoot]
    cases hk : links k with
    | none =>
      refine iff_of_false (fun h => by cases h) ?_
      rintro ⟨n, -, h⟩
      exact h.present hk
    | some parent =>
      cases parent with
      | none => exact iff_of_true rfl ⟨0, Nat.zero_le _, HasHeight.root hk⟩
      | some p =>
        refine ih.trans ⟨?_, ?_⟩
        · rintro ⟨n, hn, h⟩
          exact ⟨n + 1, by omega, HasHeight.step hk h⟩
        · rintro ⟨n, hn, h⟩
          obtain ⟨n', rfl, h'⟩ := h.parent hk
          exact ⟨n', by omega, h'⟩

/-- With steps for its height, the way up from a key is searched to the root. -/
theorem HasHeight.climbsTo_iff [DecidableEq κ] {k target : κ} {m n : Nat} (h : HasHeight links k m)
    (hn : m ≤ n) :
    climbsTo links target n k = true ↔ Relation.ReflTransGen (Link links) k target := by
  induction h generalizing n with
  | @root k hk =>
    have hstop : Relation.ReflTransGen (Link links) k target ↔ k = target := by
      constructor
      · intro h
        rcases Relation.ReflTransGen.cases_head h with he | ⟨p, hlink, -⟩
        · exact he
        · rw [Link, hk] at hlink
          cases hlink
      · rintro rfl
        exact Relation.ReflTransGen.refl
    rw [hstop]
    cases n with
    | zero => simp [climbsTo]
    | succ n => simp [climbsTo, hk]
  | @step k p m hlink hp ih =>
    obtain ⟨n, rfl⟩ : ∃ n', n = n' + 1 := ⟨n - 1, by omega⟩
    have hk : links k = some (some p) := hlink
    simp only [climbsTo, hk, Bool.or_eq_true, decide_eq_true_eq, ih (Nat.le_of_succ_le_succ hn)]
    constructor
    · rintro (rfl | h)
      · exact Relation.ReflTransGen.refl
      · exact Relation.ReflTransGen.head hlink h
    · intro h
      rcases Relation.ReflTransGen.cases_head h with he | ⟨p', hlink', h'⟩
      · exact Or.inl he
      · rw [Link, hk] at hlink'
        cases hlink'
        exact Or.inr h'

section Update

variable [DecidableEq κ] {new : κ} {parent : Option κ}

/-- Links of other keys stay. -/
theorem link_update {k p : κ} (hne : k ≠ new) :
    Link (Function.update links new (some parent)) k p ↔ Link links k p := by
  rw [Link, Link, Function.update_of_ne hne]

/-- A key that does not climb to the new one keeps its height. -/
theorem HasHeight.update {k : κ} {m : Nat} (h : HasHeight links k m)
    (hnot : ¬ Relation.ReflTransGen (Link links) k new) :
    HasHeight (Function.update links new (some parent)) k m := by
  induction h with
  | @root k hk =>
    have hne : k ≠ new := fun he => hnot (he ▸ Relation.ReflTransGen.refl)
    exact HasHeight.root (by rw [Function.update_of_ne hne, hk])
  | @step k p m hlink hp ih =>
    have hne : k ≠ new := fun he => hnot (he ▸ Relation.ReflTransGen.refl)
    exact HasHeight.step ((link_update hne).mpr hlink)
      (ih fun h => hnot (Relation.ReflTransGen.head hlink h))

/-- The way up to the new key stays. -/
theorem climb_update {k : κ} (h : Relation.ReflTransGen (Link links) k new) :
    Relation.ReflTransGen (Link (Function.update links new (some parent))) k new := by
  induction h using Relation.ReflTransGen.head_induction_on with
  | refl => exact Relation.ReflTransGen.refl
  | @head a c hac _ ih =>
    by_cases ha : a = new
    · rw [ha]
    · exact Relation.ReflTransGen.head ((link_update ha).mpr hac) ih

/-- Linking a key anew keeps the forest exactly when its parent is a key that does not climb to
it. -/
theorem forest_update_iff (h : Forest links) :
    Forest (Function.update links new (some parent)) ↔
      ∀ p ∈ parent, links p ≠ none ∧ ¬ Relation.ReflTransGen (Link links) p new := by
  have hself : Function.update links new (some parent) new = some parent :=
    Function.update_self ..
  constructor
  · rintro h' p hp
    rw [Option.mem_def] at hp
    subst hp
    have hlink : Link (Function.update links new (some (some p))) new p := hself
    have hpresent' : Function.update links new (some (some p)) new ≠ none := by
      rw [hself]
      exact Option.some_ne_none _
    obtain ⟨m, hm⟩ := h' new hpresent'
    obtain ⟨n, rfl, hn⟩ := hm.parent hlink
    have hne : p ≠ new := by
      rintro rfl
      have := hn.unique hm
      omega
    refine ⟨?_, fun hclimb => ?_⟩
    · have hpresent := hn.present
      rwa [Function.update_of_ne hne] at hpresent
    · -- the way up to the new key now closes a cycle
      obtain ⟨n', hle, hnew⟩ := hn.climb (climb_update hclimb)
      have := hnew.unique hm
      omega
  · intro hparent
    have hnew : ∃ m, HasHeight (Function.update links new (some parent)) new m := by
      cases parent with
      | none => exact ⟨0, HasHeight.root hself⟩
      | some p =>
        obtain ⟨hpresent, hnot⟩ := hparent p rfl
        obtain ⟨m, hm⟩ := h p hpresent
        exact ⟨m + 1, HasHeight.step hself (hm.update hnot)⟩
    intro k hk
    by_cases hkn : k = new
    · rw [hkn]
      exact hnew
    · rw [Function.update_of_ne hkn] at hk
      obtain ⟨m, hm⟩ := h k hk
      clear hk hkn
      induction hm with
      | @root k hroot =>
        by_cases hkn : k = new
        · rw [hkn]
          exact hnew
        · exact ⟨0, HasHeight.root (by rw [Function.update_of_ne hkn, hroot])⟩
      | @step k p m hlink hp ih =>
        by_cases hkn : k = new
        · rw [hkn]
          exact hnew
        · obtain ⟨m', hm'⟩ := ih
          exact ⟨m' + 1, HasHeight.step ((link_update hkn).mpr hlink) hm'⟩

end Update

end Basis
