import PersistHotStuff.Cluster.Cluster
import PersistHotStuff.Source.Sample

/-!
# One certificate per view

Two quorums share a correct validator, so two blocks are certified for one epoch
and view only if some correct validator has signed both. Nothing in a replica
remembers what it signed, but it signs only what the leader of the view has sent
it: whether it signs twice is up to the leaders.
-/

namespace PersistHotStuff

open Basis

namespace Cluster

section Votes

variable {σ : Type}

/-- No correct validator has signed two different blocks of one epoch and view. -/
def SingleVote (k : Committee) (c : Cluster σ) : Prop :=
  ∀ p ∈ c.accepted, ∀ q ∈ c.accepted, p.1 = q.1 → k.Correct p.1 → p.2.epoch = q.2.epoch →
    p.2.view = q.2.view → p.2.hash = q.2.hash

/-- The block a step delivers to its validator. -/
def delivered (op : ReplicaId × Nat × ClusterOp) : Option Block :=
  match op.2.2 with
  | .node (.call (.validateAndInsertProposal block)) => some block
  | _ => none

/-- In the whole run no leader sends a correct validator two different blocks for one epoch and
view. -/
def OneProposal (k : Committee) (ops : List (ReplicaId × Nat × ClusterOp)) : Prop :=
  ∀ op ∈ ops, ∀ op' ∈ ops, op.1 = op'.1 → k.Correct op.1 →
    ∀ block ∈ delivered op, ∀ block' ∈ delivered op', block.proposer = block.view % k.n →
      block'.proposer = block'.view % k.n → block.epoch = block'.epoch →
        block.view = block'.view → block.hash = block'.hash

/-- What correct validators have accepted was sent to them by the leader of its view. -/
def Sent (k : Committee) (ops : List (ReplicaId × Nat × ClusterOp)) (c : Cluster σ) : Prop :=
  ∀ p ∈ c.accepted, k.Correct p.1 → p.2.proposer = p.2.view % k.n ∧
    ∃ op ∈ ops, op.1 = p.1 ∧ p.2 ∈ delivered op

/-- Leaders that propose once get one vote. -/
theorem Sent.singleVote {k : Committee} {ops : List (ReplicaId × Nat × ClusterOp)}
    {c : Cluster σ} (h : Sent k ops c) (hone : OneProposal k ops) : SingleVote k c := by
  intro p hp q hq hpq hi hepoch hview
  obtain ⟨hleader, op, hop, hopi, hb⟩ := h p hp hi
  obtain ⟨hleader', op', hop', hopi', hb'⟩ := h q hq (hpq ▸ hi)
  exact hone op hop op' hop' (by rw [hopi, hopi', hpq]) (hopi ▸ hi) _ hb _ hb' hleader hleader'
    hepoch hview

variable [Ed25519] [Sha256]

/-- Certificates for one epoch and view are for one block. -/
def OneCertificate (k : Committee) (c : Cluster σ) : Prop :=
  ∀ qc qc', Certified k c qc → Certified k c qc' → qc.epoch = qc'.epoch →
    qc.view = qc'.view → qc.blockHash = qc'.blockHash

/-- If no correct validator signs twice, no view has two certified blocks. -/
theorem SingleVote.oneCertificate [Bincode Snapshot] {k : Committee} {c : Cluster σ}
    (h : SingleVote k c) (hroster : OnRoster k c) : OneCertificate k c := by
  intro qc qc' hqc hqc' hepoch hview
  obtain ⟨a, hsub, hlarge, hsigned⟩ := hqc.signers hroster
  obtain ⟨b, hsub', hlarge', hsigned'⟩ := hqc'.signers hroster
  obtain ⟨i, hi, hia, hib⟩ := k.exists_correct hsub hsub' hlarge hlarge'
  obtain ⟨x, hx, hxhash, hxview, hxepoch⟩ := hsigned i hia hi
  obtain ⟨y, hy, hyhash, hyview, hyepoch⟩ := hsigned' i hib hi
  have hxy := h _ hx _ hy rfl hi (by rw [hxepoch, hyepoch, hepoch]) (by rw [hxview, hyview, hview])
  rw [← hxhash, ← hyhash]
  exact hxy

/-- What is signed was delivered, and passed the checks. -/
theorem mem_signs {c : Cluster σ} {op : ReplicaId × Nat × ClusterOp} {block : Block} :
    block ∈ c.signs op ↔
      block ∈ delivered op ∧ (c.nodes op.1).replica.acceptsProposal block = true := by
  obtain ⟨i, now, op⟩ := op
  rcases op with (⟨_ | _ | _ | _⟩ | _ | _) | _ <;> simp [signs, delivered]
  constructor
  · rintro ⟨haccept, rfl⟩
    exact ⟨rfl, haccept⟩
  · rintro ⟨rfl, haccept⟩
    exact ⟨haccept, rfl⟩

section Step

variable [Bincode LogEntry] [Bincode Snapshot] [Crc32] [App σ]

/-- A validator on the roster only accepts what the leader of the view proposes. -/
theorem Sent.step {k : Committee} {ops : List (ReplicaId × Nat × ClusterOp)} {c : Cluster σ}
    (h : Sent k ops c) (hroster : OnRoster k c) {op : ReplicaId × Nat × ClusterOp}
    (hop : op ∈ ops) : Sent k ops (c.step op) := by
  intro p hp hi
  rcases mem_accepted_step.mp hp with hp | ⟨hpi, hb⟩
  · exact h p hp hi
  · obtain ⟨hb, haccept⟩ := mem_signs.mp hb
    have hvalidators := (hroster op.1 (hpi ▸ hi)).validators
    have hpos : 0 < k.n := Nat.succ_pos _
    have hleader := ((Replica.acceptsProposal_iff ..).mp haccept).1
    rw [Replica.dynamicLeaderForView_default hpos hvalidators] at hleader
    exact ⟨hleader, op, hop, hpi.symm, hb⟩

variable [LawfulBincode Snapshot]

/-- Validators remember nothing of what they signed, but if no leader sends any of the correct ones
two blocks for a view, they sign only one, before and after recoveries, and no view has two
certified blocks. -/
theorem one_certificate {k : Committee} {c : Cluster σ} (hstart : c.accepted = [])
    (hroster : OnRoster k c) {ops : List (ReplicaId × Nat × ClusterOp)}
    (hops : Along step (Admissible k) c ops) (hone : OneProposal k ops) :
    Throughout step (fun c => OneCertificate k c ∧ SingleVote k c) c ops := by
  have hempty : Sent k ops c := by
    intro p hp
    rw [hstart] at hp
    cases hp
  have hlisted : Along step (fun (_ : Cluster σ) op => op ∈ ops) c ops :=
    along_of_mem (fun op hop _ => hop) c
  have hinv : Throughout step (fun c => OnRoster k c ∧ Sent k ops c) c ops :=
    throughout_of_step (fun c op h hop => ⟨h.1.step hop.1, h.2.step h.1 hop.2⟩)
      ⟨hroster, hempty⟩ (along_and.mpr ⟨hops, hlisted⟩)
  intro pre hpre
  obtain ⟨hroster, hsent⟩ := hinv pre hpre
  have hsingle := hsent.singleVote hone
  exact ⟨hsingle.oneCertificate hroster, hsingle⟩

end Step

end Votes

section Samples

open Sample

/-- Four validators, of which number 0 is faulty. -/
def committee : Committee where
  f := 1
  faulty := {0}
  keys := (keyStore 4 0).publicKeys
  few := by decide
  members i hi := by
    have hmem := OrdMap.mem_keys.mpr hi
    rw [show (keyStore 4 0).publicKeys.keys = [0, 1, 2, 3] by decide] at hmem
    simp only [List.mem_cons, List.not_mem_nil, or_false] at hmem
    rcases hmem with rfl | rfl | rfl | rfl <;> decide

/-- The four validators at genesis with empty directories. -/
def fourValidators : Cluster NoOpApp where
  nodes i := ⟨party 4 i, DataDir.empty⟩
  accepted := []

/-- A proposal delivered to one validator. -/
def deliver (i now : Nat) (block : Block) : ReplicaId × Nat × ClusterOp :=
  (i, now, .node (.call (.validateAndInsertProposal block)))

theorem fourValidators_onRoster : OnRoster committee fourValidators := by
  intro i _
  exact ⟨rfl, rfl, none, ⟨rfl, rfl, fun seq hseq => (by cases hseq)⟩, fun s hs => (by cases hs)⟩

/-- Leader 0 sends one block to everyone. Validator 3 restarts and gets the block once more, and
then one of its own view that 0 has put together in the name of 2. -/
def steadyOps : List (ReplicaId × Nat × ClusterOp) :=
  [deliver 1 1 (block 1 0 0 0 none), deliver 2 1 (block 1 0 0 0 none),
    deliver 3 1 (block 1 0 0 0 none),
    (3, 2, .node (.restart (party 4 3).config (keyStore 4 3))),
    deliver 3 3 (block 1 0 0 0 none), deliver 3 3 (block 2 0 0 2 none)]

/-- Leader 0 sends one block to everyone and then another one for the same view. -/
def equivocatingOps : List (ReplicaId × Nat × ClusterOp) :=
  [deliver 1 1 (block 1 0 0 0 none), deliver 2 1 (block 1 0 0 0 none),
    deliver 3 1 (block 1 0 0 0 none), deliver 1 2 (block 2 0 0 0 none),
    deliver 2 2 (block 2 0 0 0 none), deliver 3 2 (block 2 0 0 0 none)]

instance (k : Committee) : DecidablePred (OneProposal k) := fun ops =>
  inferInstanceAs (Decidable (∀ op ∈ ops, ∀ op' ∈ ops, op.1 = op'.1 → k.Correct op.1 →
    ∀ block ∈ delivered op, ∀ block' ∈ delivered op', block.proposer = block.view % k.n →
      block'.proposer = block'.view % k.n → block.epoch = block'.epoch →
        block.view = block'.view → block.hash = block'.hash))

/-- Validator 3 signs the block of its leader twice, and no other one. -/
theorem one_certificate_steady :
    Throughout step (fun c => OneCertificate committee c ∧ SingleVote committee c) fourValidators
        steadyOps ∧
      ((run step fourValidators steadyOps).accepted.map fun p => (p.1, p.2.hash)) =
        [(1, 1), (2, 1), (3, 1), (3, 1)] := by
  have hops : Along step (Admissible committee) fourValidators steadyOps :=
    ⟨fun _ => trivial, fun _ => trivial, fun _ => trivial, fun _ => ⟨rfl, rfl⟩, fun _ => trivial,
      fun _ => trivial, trivial⟩
  exact ⟨one_certificate rfl fourValidators_onRoster hops (by decide), by decide +kernel⟩

/-- The proposer of view 0 gets two blocks certified for it. -/
theorem one_certificate_equivocation :
    OnRoster committee fourValidators ∧
      Along step (Admissible committee) fourValidators equivocatingOps ∧
      ¬ OneCertificate committee (run step fourValidators equivocatingOps) := by
  refine ⟨fourValidators_onRoster, ?_, ?_⟩
  · exact ⟨fun _ => trivial, fun _ => trivial, fun _ => trivial, fun _ => trivial, fun _ => trivial,
      fun _ => trivial, trivial⟩
  · intro h
    have hone : Certified committee (run step fourValidators equivocatingOps)
        (qc [1, 2, 3] 1 0 0) :=
      ⟨1, by decide, unforged_of_accepted (by decide +kernel), by decide +kernel⟩
    have htwo : Certified committee (run step fourValidators equivocatingOps)
        (qc [1, 2, 3] 2 0 0) :=
      ⟨1, by decide, unforged_of_accepted (by decide +kernel), by decide +kernel⟩
    exact absurd (h _ _ hone htwo rfl rfl) (by decide)

end Samples

end Cluster

end PersistHotStuff
