import PersistHotStuff.Basis.Rotation
import PersistHotStuff.Handlers.Membership
import PersistHotStuff.Source.Sample

/-!
# Leader rotation

The active validators take turns in the order of their ids, one view each. Who
leads a view is a matter of the validator set alone.
-/

namespace PersistHotStuff

open Basis

namespace Replica

variable {σ : Type} {r : Replica σ}

/-- The leader of a view is the validator whose turn it is. -/
theorem turn?_dynamicLeaderForView (hne : r.activeValidators.isEmpty = false) (view : Nat) :
    turn? r.activeValidators.keys view = some (r.dynamicLeaderForView view) := by
  have hkeys : r.activeValidators.keys ≠ [] := by
    intro hnil
    rw [OrdMap.isEmpty, List.isEmpty_eq_false_iff] at hne
    exact hne (List.map_eq_nil_iff.mp hnil)
  obtain ⟨id, hid⟩ := exists_turn? hkeys view
  have hget : r.activeValidators.keys[view % r.activeValidators.length]? = some id := by
    rw [← OrdMap.length_keys]
    exact hid
  simp only [dynamicLeaderForView, hne, Bool.false_eq_true, if_false, hget, Option.getD_some]
  exact hid

/-- A validator leads a view when as many validators have smaller ids as the view is past a multiple
of their number. -/
theorem dynamicLeaderForView_eq_iff (hne : r.activeValidators.isEmpty = false) {view : Nat}
    {id : ReplicaId} :
    r.dynamicLeaderForView view = id ↔
      r.activeValidators.contains id = true ∧
        r.activeValidators.keys.countP (· < id) = view % r.activeValidators.length := by
  have hturn := turn?_dynamicLeaderForView hne view
  have hrank := turn?_eq_some_iff (v := view) (a := id) r.activeValidators.keys_pairwise
  rw [hturn, Option.some.injEq, OrdMap.mem_keys, OrdMap.length_keys] at hrank
  exact hrank

/-- Leadership rotates fairly: from any view on, as many views as there are active validators are
led by each of them once; the leader is always active; and replicas with the same validators agree
on every leader, whatever their own ids. -/
theorem dynamicLeaderForView_rotates (hne : r.activeValidators.isEmpty = false) (view : Nat) :
    Set.BijOn r.dynamicLeaderForView (Set.Ico view (view + r.activeValidators.length))
        {id | r.activeValidators.contains id = true} ∧
      (∀ v, r.activeValidators.contains (r.dynamicLeaderForView v) = true) ∧
      ∀ s : Replica σ, s.activeValidators = r.activeValidators →
        ∀ v, s.dynamicLeaderForView v = r.dynamicLeaderForView v := by
  have hturn := turn?_dynamicLeaderForView hne
  have hmembers : {id | id ∈ r.activeValidators.keys} =
      {id | r.activeValidators.contains id = true} := Set.ext fun id => OrdMap.mem_keys
  refine ⟨?_, fun v => OrdMap.mem_keys.mp (mem_of_turn? (hturn v)), fun s hs v =>
    dynamicLeaderForView_congr hs hne v⟩
  have hnodup : r.activeValidators.keys.Nodup :=
    r.activeValidators.keys_pairwise.imp fun hlt => hlt.ne
  have hbij := bijOn_turn hnodup hturn view
  rw [OrdMap.length_keys, hmembers] at hbij
  exact hbij

end Replica

namespace Replica

section Samples

open Sample

/-- A replica outside an active set with gaps. -/
def gapped : Replica NoOpApp :=
  { party 4 1 with activeValidators := OrdMap.ofList ([0, 2, 5, 7].map fun id => (id, ())) }

/-- From view 6 on the validators lead in the order 5, 7, 0, 2. -/
theorem dynamicLeaderForView_rotates_gapped :
    gapped.activeValidators.isEmpty = false ∧
      (List.range' 6 4).map gapped.dynamicLeaderForView = [5, 7, 0, 2] ∧
      Set.BijOn gapped.dynamicLeaderForView (Set.Ico 6 (6 + gapped.activeValidators.length))
        {id | gapped.activeValidators.contains id = true} := by
  have hne : gapped.activeValidators.isEmpty = false := by decide
  exact ⟨hne, by decide, (dynamicLeaderForView_rotates hne 6).1⟩

end Samples

end Replica

end PersistHotStuff
