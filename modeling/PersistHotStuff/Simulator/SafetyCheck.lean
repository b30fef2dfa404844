import PersistHotStuff.Simulator.Trace

/-!
# The safety check

The check compares every live log with one of them, the log of the first live
replica, and so covers every pair at the indices that this log reaches. Past
its end the other logs are compared with nothing.
-/

namespace PersistHotStuff

open Basis

/-- Two logs agree wherever both have a block. -/
def Agree (a b : List Block) : Prop :=
  ∀ (m : Nat) (x y : Block), a[m]? = some x → b[m]? = some y → x.hash = y.hash

theorem Agree.refl (a : List Block) : Agree a a := by
  intro m x y hx hy
  rw [hx] at hy
  rw [Option.some.inj hy]

/-- Comparing two logs block by block up to the shorter length. -/
theorem forall_mem_zip_iff {a b : List Block} :
    (∀ p ∈ a.zip b, p.1.hash = p.2.hash) ↔ Agree a b := by
  constructor
  · intro h m x y hx hy
    exact h (x, y) (List.mem_of_getElem? (List.getElem?_zip_eq_some.mpr ⟨hx, hy⟩))
  · intro h p hp
    obtain ⟨m, hm⟩ := List.mem_iff_getElem?.mp hp
    obtain ⟨hx, hy⟩ := List.getElem?_zip_eq_some.mp hm
    exact h m p.1 p.2 hx hy

namespace Simulation

variable {σ : Type}

/-- The replica of an id, if it has not crashed. -/
def Live (sim : Simulation σ) (id : Nat) (r : Replica σ) : Prop :=
  sim.replicas[id]? = some r ∧ id ∉ sim.crashedReplicas

/-- The log the others are compared with: that of the first live replica. -/
def reference (sim : Simulation σ) : List Block :=
  match sim.replicas.zipIdx.find? fun p => decide (p.2 ∉ sim.crashedReplicas) with
  | none => []
  | some (reference, _) => reference.committedLog

theorem mem_zipIdx_iff_live {sim : Simulation σ} {r : Replica σ} {id : Nat} :
    (r, id) ∈ sim.replicas.zipIdx ∧ id ∉ sim.crashedReplicas ↔ sim.Live id r :=
  and_congr_left' List.mem_zipIdx_iff_getElem?

/-- The replica the others are compared with is live, and none before it is. -/
theorem reference_first {sim : Simulation σ} {r : Replica σ} {id : Nat}
    (h : sim.replicas.zipIdx.find? (fun p => decide (p.2 ∉ sim.crashedReplicas)) = some (r, id)) :
    sim.Live id r ∧ ∀ id' r', sim.Live id' r' → id' ≠ id → 0 < id' := by
  have hcrashed := List.find?_some h
  rw [decide_eq_true_eq] at hcrashed
  refine ⟨mem_zipIdx_iff_live.mp ⟨List.mem_of_find?_eq_some h, hcrashed⟩, ?_⟩
  intro id' r' hlive hne
  refine Nat.pos_of_ne_zero ?_
  rintro rfl
  -- a live replica 0 is the first one the search meets
  cases hall : sim.replicas with
  | nil =>
    have hget := hlive.1
    rw [hall] at hget
    cases hget
  | cons first rest =>
    rw [hall, List.zipIdx_cons, List.find?_cons_of_pos (by simpa using hlive.2)] at h
    exact hne (congrArg Prod.snd (Option.some.inj h))

/-- The check passes exactly when every live log agrees with the reference. -/
theorem verifySafety_iff (sim : Simulation σ) :
    sim.verifySafety = true ↔ ∀ id r, sim.Live id r → Agree sim.reference r.committedLog := by
  unfold verifySafety reference
  cases hfind : sim.replicas.zipIdx.find? fun p => decide (p.2 ∉ sim.crashedReplicas) with
  | none =>
    refine iff_of_true rfl fun id r hlive => ?_
    have hcrashed := List.find?_eq_none.mp hfind (r, id) (mem_zipIdx_iff_live.mpr hlive).1
    rw [decide_eq_true_eq, not_not] at hcrashed
    exact absurd hcrashed hlive.2
  | some p =>
    obtain ⟨r, id⟩ := p
    obtain ⟨hlive, hfirst⟩ := reference_first hfind
    simp only [List.all_eq_true, Bool.or_eq_true, beq_iff_eq, decide_eq_true_eq,
      forall_mem_zip_iff]
    constructor
    · intro hall id' r' hlive'
      by_cases hid : id' = id
      · subst hid
        rw [Option.some.inj (hlive'.1.symm.trans hlive.1)]
        exact Agree.refl _
      · -- the check leaves out the first entry, which is live only when it is the reference
        have hpos := hfirst id' r' hlive' hid
        have hmem : (r', id') ∈ sim.replicas.zipIdx.drop 1 := by
          refine List.mem_of_getElem? (i := id' - 1) ?_
          rw [List.getElem?_drop, show 1 + (id' - 1) = id' by omega, List.getElem?_zipIdx,
            hlive'.1]
          simp
        rcases hall (r', id') hmem with (heq | hcrashed) | hagree
        · exact absurd heq hid
        · exact absurd hcrashed hlive'.2
        · exact hagree
    · rintro hall ⟨r', id'⟩ hmem
      by_cases hcrashed : id' ∈ sim.crashedReplicas
      · exact .inl (.inr hcrashed)
      · have hin := List.mem_of_mem_drop hmem
        exact .inr (hall id' r' (mem_zipIdx_iff_live.mp ⟨hin, hcrashed⟩))

/-- Compatible logs pass the check. -/
theorem verifySafety_of_compatible {sim : Simulation σ} (h : sim.LogsCompatible) :
    sim.verifySafety = true := by
  rw [verifySafety_iff]
  intro j s hj m x y hx hy
  unfold reference at hx
  cases hfind : sim.replicas.zipIdx.find? fun p => decide (p.2 ∉ sim.crashedReplicas) with
  | none =>
    rw [hfind] at hx
    cases hx
  | some p =>
    obtain ⟨r, i⟩ := p
    rw [hfind] at hx
    have hi := (reference_first hfind).1
    exact h i j r s hi.1 hj.1 hi.2 hj.2 m x y hx hy

/-- Logs that agree with the reference, and with each other past its end, are compatible. -/
theorem compatible_of_agree {sim : Simulation σ} (hsafe : sim.verifySafety = true)
    (hpast : ∀ i j r s, sim.Live i r → sim.Live j s → ∀ m, sim.reference.length ≤ m → ∀ x y,
      r.committedLog[m]? = some x → s.committedLog[m]? = some y → x.hash = y.hash) :
    sim.LogsCompatible := by
  rw [verifySafety_iff] at hsafe
  intro i j r s hr hs hi hj m x y hx hy
  by_cases hm : m < sim.reference.length
  · have hz : sim.reference[m]? = some sim.reference[m] := List.getElem?_eq_getElem hm
    calc x.hash = sim.reference[m].hash := (hsafe i r ⟨hr, hi⟩ m _ x hz hx).symm
      _ = y.hash := hsafe j s ⟨hs, hj⟩ m _ y hz hy
  · exact hpast i j r s ⟨hr, hi⟩ ⟨hs, hj⟩ m (not_lt.mp hm) x y hx hy

/-- The check is exact exactly when some live log differs from the reference, or no two live logs
differ past the end of the reference. -/
theorem verifySafety_exact_iff (sim : Simulation σ) :
    (sim.verifySafety = true ↔ sim.LogsCompatible) ↔
      (∃ id r, sim.Live id r ∧ ∃ (m : Nat) (x y : Block), sim.reference[m]? = some x ∧
        r.committedLog[m]? = some y ∧ x.hash ≠ y.hash) ∨
      ∀ i j r s, sim.Live i r → sim.Live j s → ∀ m, sim.reference.length ≤ m → ∀ x y,
        r.committedLog[m]? = some x → s.committedLog[m]? = some y → x.hash = y.hash := by
  constructor
  · intro hexact
    by_cases hsafe : sim.verifySafety = true
    · have hcompatible := hexact.mp hsafe
      exact .inr fun i j r s hi hj m _ x y => hcompatible i j r s hi.1 hj.1 hi.2 hj.2 m x y
    · rw [verifySafety_iff] at hsafe
      simp only [Agree] at hsafe
      push Not at hsafe
      exact .inl hsafe
  · rintro (⟨id, r, hlive, m, x, y, hx, hy, hne⟩ | hpast)
    · have hunsafe : sim.verifySafety ≠ true := fun hsafe =>
        hne (verifySafety_iff sim |>.mp hsafe id r hlive m x y hx hy)
      exact iff_of_false hunsafe fun h => hunsafe (verifySafety_of_compatible h)
    · exact ⟨fun hsafe => compatible_of_agree hsafe hpast, verifySafety_of_compatible⟩

end Simulation

namespace Trace

section Samples

open Sample SimulationOp

/-- Replica 3 misses the third round and replica 0 the last, so that the first log is short. -/
def shortReferenceOps : List (Nat × SimulationOp) :=
  [(1, runOneRound), (2, runOneRound), (3, setReplicaUnresponsive 3 true), (3, runOneRound),
    (4, setReplicaUnresponsive 3 false), (4, runOneRound), (5, runOneRound), (6, runOneRound),
    (7, setReplicaUnresponsive 0 true), (7, runOneRound)]

/-- The check passes although replicas 1 and 3 have committed different blocks. -/
theorem verifySafety_misses_fork :
    ¬ ((run step fourVolatile shortReferenceOps).sim.verifySafety = true ↔
      (run step fourVolatile shortReferenceOps).sim.LogsCompatible) := by
  decide +kernel

end Samples

end Trace

end PersistHotStuff
