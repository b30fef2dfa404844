import PersistHotStuff.Cluster.Agreement
import PersistHotStuff.Handlers.Application
import PersistHotStuff.Source.KeyValue

/-!
# The replicated state machine

Every correct validator feeds its application the blocks it commits, in the order
of its log. As long as the committed logs agree, the applications run through the
same states: the one behind gets to where the other one is by executing the
blocks it has not committed yet.
-/

namespace PersistHotStuff

open Basis

namespace Cluster

section Run

variable {σ : Type}

/-- The application of a validator. -/
def app (c : Cluster σ) (i : ReplicaId) : Option σ := (c.nodes i).replica.app

variable [App σ]

/-- Every correct validator runs an application that has executed its log from one initial state. -/
def Executes (k : Committee) (initial : σ) (c : Cluster σ) : Prop :=
  ∀ i, k.Correct i → c.app i = Replica.executed (some initial) [] (c.log i)

/-- Of two correct validators the one behind has committed a part of what the other one has. What it
has not committed yet takes its application to the state of the other one. -/
def Replicates (k : Committee) (c : Cluster σ) : Prop :=
  ∀ i j, k.Correct i → k.Correct j → (c.log i).length ≤ (c.log j).length →
    c.log i <+: c.log j ∧ (c.app i).isSome = true ∧
      Replica.executed (c.app i) (c.log i) (c.log j) = c.app j

variable {k : Committee} {c : Cluster σ} {initial : σ}

/-- Coherent validators that execute their logs are replicas of one state machine. -/
theorem Coherent.replicates (h : Coherent k c) (hexec : Executes k initial c) : Replicates k c := by
  intro i j hi hj hle
  have hlogs : c.log i <+: c.log j := by
    rw [List.prefix_iff_eq_take]
    refine List.ext_getElem? fun m => ?_
    rw [List.getElem?_take]
    split
    · next hm =>
      have hx := List.getElem?_eq_getElem hm
      have hy := List.getElem?_eq_getElem (hm.trans_le hle)
      rw [hx, hy, Option.some.injEq]
      -- one hash, so one block
      exact h.bound i j hi hj _ (h.settled i hi _ (List.getElem_mem hm)).1 _
        (h.settled j hj _ (List.getElem_mem _)).1 (h.logsAgree i j hi hj m _ _ hx hy)
    · next hm => exact List.getElem?_eq_none (not_lt.mp hm)
  refine ⟨hlogs, ?_, ?_⟩
  · rw [hexec i hi]
    rfl
  · rw [hexec i hi, hexec j hj, Replica.executed_trans _ (List.nil_prefix ..) hlogs]

variable [Ed25519] [Sha256] [Bincode LogEntry] [Bincode Snapshot] [Crc32]

/-- Whatever a correct validator commits its application executes. -/
theorem Executes.step {op : ReplicaId × Nat × ClusterOp} (h : Executes k initial c)
    (hcalls : CallsOnly k c op) : Executes k initial (c.step op) := by
  intro i hi
  by_cases hne : i = op.1
  · subst hne
    obtain ⟨call, hcall⟩ := hcalls hi
    have hbefore := h _ hi
    obtain ⟨i, now, op⟩ := op
    simp only at hcall
    subst hcall
    simp only [app, log, Cluster.step, Function.update_self, nodeAfter, Node.step] at hbefore ⊢
    rw [((c.nodes i).replica.step_told (now, call)).1, hbefore]
    exact Replica.executed_trans _ (List.nil_prefix ..)
      ((c.nodes i).replica.committedLog_grows (now, call))
  · simp only [app, log, Cluster.step, Function.update_of_ne hne]
    exact h i hi

/-- As long as correct validators are disciplined they replicate one application, in any order of
steps and whatever the faulty ones send. -/
theorem replicates_disciplined (hstart : Genesis k c)
    (happ : ∀ i, k.Correct i → c.app i = some initial) {ops : List (ReplicaId × Nat × ClusterOp)}
    (hcalls : Along step (CallsOnly k) c ops) (hgenuine : Along step (Genuine k) c ops)
    (hrules : Along step (Disciplined k) c ops) : Throughout step (Replicates k) c ops := by
  have hexec : Executes k initial c := by
    intro i hi
    rw [happ i hi, hstart.log i hi, Replica.executed_self]
  have hinv : Throughout step
      (fun c => OnRoster k c ∧ Coherent k c ∧ Executes k initial c) c ops := by
    refine throughout_of_step (C := fun c op => CallsOnly k c op ∧ Genuine k c op ∧
      Disciplined k c op) ?_ ⟨hstart.roster, hstart.coherent, hexec⟩
      (along_and.mpr ⟨hcalls, along_and.mpr ⟨hgenuine, hrules⟩⟩)
    rintro c op ⟨hroster, hcoherent, hexec⟩ ⟨hcalls, hgenuine, hrules⟩
    exact ⟨hroster.calls hcalls, hcoherent.step hroster hcalls hgenuine hrules, hexec.step hcalls⟩
  exact fun pre hpre => (hinv pre hpre).2.1.replicates (hinv pre hpre).2.2

end Run

section Samples

open Sample

/-- The four validators, each with a key-value store. -/
def fourStores : Cluster KeyValueApp where
  nodes i := ⟨(party 4 i).withApp (some KeyValueApp.new) none, DataDir.empty⟩
  accepted := []

/-- The block of view 0, with a write. -/
def writeBlock : Block := { block 1 0 0 0 none with command := .clientTx "SET key value" }

/-- A chain of three blocks on the way to two validators, one of which commits. -/
def writeOps : List (ReplicaId × Nat × ClusterOp) :=
  [deliver 1 1 writeBlock, deliver 2 1 writeBlock, deliver 3 1 writeBlock,
    deliver 1 2 (block 2 1 1 1 (some (qc [1, 2, 3] 1 0 0))),
    deliver 2 2 (block 2 1 1 1 (some (qc [1, 2, 3] 1 0 0))),
    deliver 3 2 (block 2 1 1 1 (some (qc [1, 2, 3] 1 0 0))),
    deliver 1 3 (block 3 2 2 2 (some (qc [1, 2, 3] 2 1 0))), commit 1 4]

/-- Validator 1 has executed the write, validator 2 is behind. -/
theorem replicates_write :
    ((run step fourStores writeOps).app 1).bind (fun app => app.get "key") = some "value" ∧
      ((run step fourStores writeOps).app 2).bind (fun app => app.get "key") = none ∧
      Throughout step (Replicates committee) fourStores writeOps := by
  have hstart : Genesis committee fourStores :=
    ⟨rfl, fun i hi => ⟨rfl, rfl, none, ⟨rfl, rfl, fun seq hseq => (by cases hseq)⟩,
      fun s hs => (by cases hs)⟩, fun _ _ => rfl, fun _ _ => rfl⟩
  have hsigned : Along step (SignersAccepted committee) fourStores writeOps := by decide +kernel
  have hcalls : Along step (CallsOnly committee) fourStores writeOps :=
    along_of_mem (by simp [writeOps, deliver, commit, CallsOnly]) _
  exact ⟨by decide +kernel, by decide +kernel,
    replicates_disciplined hstart (fun _ _ => rfl) hcalls
      (hsigned.mono fun _ _ => genuine_of_signersAccepted) (by decide +kernel)⟩

end Samples

end Cluster

end PersistHotStuff
