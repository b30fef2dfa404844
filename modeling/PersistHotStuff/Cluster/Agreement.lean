import PersistHotStuff.Cluster.Certificates
import PersistHotStuff.Cluster.Coherence
import PersistHotStuff.Handlers.CommitOrder

/-!
# Agreement of the committed logs

Nothing in the handlers makes validators sign with discipline: a proposal is not
compared with what was signed before, its certificate need not be for its
parent, its hash may be taken, and the commit scan accepts a child of any later
view. With these as conditions on the steps of correct validators all states of
a run are coherent, so the logs agree.
-/

namespace PersistHotStuff

open Basis

namespace Cluster

variable {σ : Type}

section Commit

variable {k : Committee} {c : Cluster σ}

/-- A ready block whose commit is safe: its first child is of the next view, and the block it
certifies is committed before it. -/
def SafeCommit (r : Replica σ) (block : Block) : Prop :=
  (∀ child ∈ firstChild r.blockTree block.hash, child.view = block.view + 1) ∧
    r.CertifiedFirst block

instance (r : Replica σ) : DecidablePred (SafeCommit r) := fun block =>
  inferInstanceAs (Decidable ((∀ child ∈ firstChild r.blockTree block.hash,
    child.view = block.view + 1) ∧ r.CertifiedFirst block))

/-- A ready block that is safe to commit is settled. -/
theorem settled_of_ready (h : Coherent k c) {i : ReplicaId} (hi : k.Correct i) {block : Block}
    (hready : block ∈ (c.nodes i).replica.ready) (hsafe : SafeCommit (c.nodes i).replica block) :
    Settled k c i block := by
  obtain ⟨hin, -, hchain⟩ := Replica.mem_ready.mp hready
  obtain ⟨b₁, b₂, h₁, hq₁, h₂, hq₂⟩ := threeChain_iff.mp hchain
  obtain ⟨q₁, hq₁⟩ := Option.isSome_iff_exists.mp hq₁
  obtain ⟨q₂, hq₂⟩ := Option.isSome_iff_exists.mp hq₂
  have hview := hsafe.1 b₁ h₁
  obtain ⟨hin₁, hparent₁, -⟩ := (firstChild_eq_some (h.keyed i hi)).mp h₁
  obtain ⟨hin₂, hparent₂, -⟩ := (firstChild_eq_some (h.keyed i hi)).mp h₂
  have hname₁ := (h.certified i hi b₁ hin₁ q₁ hq₁).1
  obtain ⟨hname₂, -, hbacked⟩ := h.certified i hi b₂ hin₂ q₂ hq₂
  have heq₁ : q₁.blockHash = block.hash := Option.some.inj (hname₁.symm.trans hparent₁)
  have heq₂ : q₂.blockHash = b₁.hash := Option.some.inj (hname₂.symm.trans hparent₂)
  -- the quorum of the second certificate accepted the first child in its own view
  obtain ⟨b, hat, hb⟩ := h.blockAt_of_backed hbacked
  rw [heq₂, h.blockAt_eq hi hin₁, Option.some.injEq] at hat
  refine ⟨hin, b₁, hin₁, q₁, hq₁, heq₁, hview, ?_⟩
  rw [hat, hb, ← hat, ← heq₂]
  exact hbacked

/-- Safe commits keep the log grounded. -/
theorem grounded_commit (h : Coherent k c) {i : ReplicaId} (hi : k.Correct i)
    (hsafe : ∀ block ∈ (c.nodes i).replica.ready, SafeCommit (c.nodes i).replica block) :
    Grounded (justification (c.tree i))
      ((c.log i ++ (c.nodes i).replica.ready).map Block.hash) := by
  refine Replica.grounded_ready (h.keyed i hi) (h.grounded i hi) (fun block hb => ?_)
    fun block hb => (hsafe block hb).2
  rw [justification, (h.keyed i hi).get? (Replica.mem_ready.mp hb).1]
  rfl

end Commit

section Step

variable [Ed25519] [Sha256]

/-- The block a step puts into the tree. -/
def inserts (c : Cluster σ) (op : ReplicaId × Nat × ClusterOp) : Option Block :=
  match op.2.2 with
  | .node (.call call) => (c.nodes op.1).replica.inserted (op.2.1, call)
  | _ => none

/-- Correct validators call the handlers of their replicas and do nothing else. -/
def CallsOnly (k : Committee) (_ : Cluster σ) (op : ReplicaId × Nat × ClusterOp) : Prop :=
  k.Correct op.1 → ∃ call, op.2.2 = .node (.call call)

/-- No certificate that reaches the tree of a correct validator contains a forged signature. -/
def Genuine (k : Committee) (c : Cluster σ) (op : ReplicaId × Nat × ClusterOp) : Prop :=
  k.Correct op.1 → ∀ block ∈ c.inserts op, ∀ q ∈ block.qc,
    Unforged k c (c.nodes op.1).replica.keystore q

/-- The correct signers of every certificate that is inserted have accepted its block. -/
def SignersAccepted (k : Committee) (c : Cluster σ) (op : ReplicaId × Nat × ClusterOp) :
    Prop :=
  ∀ block ∈ c.inserts op, ∀ q ∈ block.qc, ∀ sig ∈ q.signatures, k.Correct sig.signer →
    ∃ p ∈ c.accepted, p.1 = sig.signer ∧ p.2.hash = q.blockHash ∧ p.2.view = q.view ∧
      p.2.epoch = q.epoch

instance (k : Committee) (c : Cluster σ) : DecidablePred (SignersAccepted k c) := fun op =>
  inferInstanceAs (Decidable (∀ block ∈ c.inserts op, ∀ q ∈ block.qc, ∀ sig ∈ q.signatures,
    k.Correct sig.signer → ∃ p ∈ c.accepted, p.1 = sig.signer ∧ p.2.hash = q.blockHash ∧
      p.2.view = q.view ∧ p.2.epoch = q.epoch))

/-- Then no signature in it is forged. -/
theorem genuine_of_signersAccepted {k : Committee} {c : Cluster σ}
    {op : ReplicaId × Nat × ClusterOp} (h : SignersAccepted k c op) : Genuine k c op :=
  fun _ block hb q hq => unforged_of_accepted (h block hb q hq)

/-- What the handlers leave unchecked. -/
structure Rules (k : Committee) (c : Cluster σ) (op : ReplicaId × Nat × ClusterOp) : Prop where
  /-- The inserted hash names no other block in a correct tree. -/
  names : ∀ block ∈ c.inserts op, ∀ j, k.Correct j → ∀ b ∈ (c.tree j).values,
    b.hash = block.hash → b = block
  /-- The inserted block extends what it certifies, and its certificate verifies. -/
  certifies : ∀ block ∈ c.inserts op, ∀ q ∈ block.qc,
    block.parent = some q.blockHash ∧ q.view < block.view ∧
      (c.nodes op.1).replica.keystore.verifyQc q (c.nodes op.1).replica.dynamicQuorumSize = true
  /-- The signed block is compatible with all that the validator signed before. -/
  votes : ∀ block ∈ c.signs op, ∀ p ∈ c.accepted, p.1 = op.1 → p.2.Compatible block
  commits : op.2.2 = .node (.call .commitAll) → ∀ block ∈ (c.nodes op.1).replica.ready,
    SafeCommit (c.nodes op.1).replica block

theorem rules_iff {k : Committee} {c : Cluster σ} {op : ReplicaId × Nat × ClusterOp} :
    Rules k c op ↔
      (∀ block ∈ c.inserts op, ∀ j, k.Correct j → ∀ b ∈ (c.tree j).values,
        b.hash = block.hash → b = block) ∧
      (∀ block ∈ c.inserts op, ∀ q ∈ block.qc,
        block.parent = some q.blockHash ∧ q.view < block.view ∧
          (c.nodes op.1).replica.keystore.verifyQc q
            (c.nodes op.1).replica.dynamicQuorumSize = true) ∧
      (∀ block ∈ c.signs op, ∀ p ∈ c.accepted, p.1 = op.1 → p.2.Compatible block) ∧
      (op.2.2 = .node (.call .commitAll) → ∀ block ∈ (c.nodes op.1).replica.ready,
        SafeCommit (c.nodes op.1).replica block) :=
  ⟨fun h => ⟨h.names, h.certifies, h.votes, h.commits⟩, fun h => ⟨h.1, h.2.1, h.2.2.1, h.2.2.2⟩⟩

instance (k : Committee) (c : Cluster σ) : DecidablePred (Rules k c) := fun _ =>
  decidable_of_iff' _ rules_iff

/-- Correct validators keep the rules. -/
def Disciplined (k : Committee) (c : Cluster σ) (op : ReplicaId × Nat × ClusterOp) : Prop :=
  k.Correct op.1 → Rules k c op

instance (k : Committee) (c : Cluster σ) : DecidablePred (Disciplined k c) := fun op =>
  inferInstanceAs (Decidable (k.Correct op.1 → Rules k c op))

/-- What is signed is inserted. -/
theorem inserts_of_signs {c : Cluster σ} {op : ReplicaId × Nat × ClusterOp} {block : Block}
    (h : block ∈ c.signs op) : block ∈ c.inserts op := by
  obtain ⟨i, now, op⟩ := op
  cases op with
  | node nodeOp =>
    cases nodeOp with
    | call call =>
      cases call with
      | validateAndInsertProposal offered => exact h
      | _ => cases h
    | _ => cases h
  | recoverReplica config keystore others => cases h

variable {k : Committee} {c : Cluster σ} {op : ReplicaId × Nat × ClusterOp} [Bincode Snapshot]

/-- Certificates in an inserted block have a quorum behind them. -/
theorem backed_of_inserts (hroster : OnRoster k c) (hgenuine : Genuine k c op)
    (hrules : Disciplined k c op) (hi : k.Correct op.1) {block : Block} (hb : block ∈ c.inserts op)
    {q : QuorumCert} (hq : q ∈ block.qc) : Backed k c q.blockHash q.view := by
  have hcert : Certified k c q :=
    ⟨op.1, hi, hgenuine hi block hb q hq, ((hrules hi).certifies block hb q hq).2.2⟩
  obtain ⟨signers, hsub, hcard, hsigned⟩ := hcert.signers hroster
  refine ⟨signers, hsub, hcard, fun i hin hcorrect => ?_⟩
  obtain ⟨b, hb, hhash, hview, -⟩ := hsigned i hin hcorrect
  exact ⟨b, hb, hhash, hview⟩

variable [Bincode LogEntry] [Crc32] [App σ]

/-- A step changes the tree of a correct validator by what it inserts. -/
theorem tree_step (hcalls : CallsOnly k c op) {i : ReplicaId} (hi : k.Correct i) :
    (c.step op).tree i = insertInto (c.tree i) (if i = op.1 then c.inserts op else none) := by
  by_cases hne : i = op.1
  · subst hne
    obtain ⟨call, hcall⟩ := hcalls hi
    obtain ⟨i, now, op⟩ := op
    simp only at hcall
    subst hcall
    simp only [tree, Cluster.step, Function.update_self, nodeAfter, Node.step, inserts, if_true]
    exact Replica.step_blockTree _ _
  · rw [if_neg hne]
    simp only [tree, Cluster.step, Function.update_of_ne hne, insertInto]

/-- A step of a correct validator changes its log by what it commits. -/
theorem log_step (h : Coherent k c) (hcalls : CallsOnly k c op) {i : ReplicaId}
    (hi : k.Correct i) :
    (c.step op).log i = c.log i ∨ i = op.1 ∧ op.2.2 = .node (.call .commitAll) ∧
      (c.step op).log i = c.log i ++ (c.nodes i).replica.ready := by
  by_cases hne : i = op.1
  · subst hne
    obtain ⟨call, hcall⟩ := hcalls hi
    obtain ⟨i, now, op⟩ := op
    simp only at hcall
    subst hcall
    simp only [log, Cluster.step, Function.update_self, nodeAfter, Node.step]
    rw [Replica.step_committedLog _ (h.keyed i hi)]
    cases call with
    | commitAll => exact Or.inr ⟨trivial, rfl, rfl⟩
    | _ => exact Or.inl rfl
  · exact Or.inl (by simp only [log, Cluster.step, Function.update_of_ne hne])

/-- A block in the tree of a correct validator was there or is inserted now. -/
theorem mem_tree_step (h : Coherent k c) (hcalls : CallsOnly k c op) (hrules : Disciplined k c op)
    {i : ReplicaId} (hi : k.Correct i) {block : Block} :
    block ∈ ((c.step op).tree i).values ↔
      block ∈ (c.tree i).values ∨ i = op.1 ∧ block ∈ c.inserts op := by
  rw [tree_step hcalls hi]
  by_cases hne : i = op.1
  · subst hne
    rw [if_pos rfl, mem_insertInto (h.keyed _ hi) fun x hx y hy he =>
      (hrules hi).names x hx _ hi y hy he]
    simp
  · simp [hne, insertInto]

/-- A disciplined step keeps the validators coherent. -/
theorem Coherent.step (h : Coherent k c) (hroster : OnRoster k c) (hcalls : CallsOnly k c op)
    (hgenuine : Genuine k c op) (hrules : Disciplined k c op) : Coherent k (c.step op) := by
  have hmem : ∀ {i}, k.Correct i → ∀ {block}, block ∈ ((c.step op).tree i).values ↔
      block ∈ (c.tree i).values ∨ i = op.1 ∧ block ∈ c.inserts op :=
    fun hi => mem_tree_step h hcalls hrules hi
  have hgrows : ∀ {i}, k.Correct i → ∀ block ∈ (c.tree i).values,
      block ∈ ((c.step op).tree i).values := fun hi block hb => (hmem hi).mpr (Or.inl hb)
  have hacc : ∀ p ∈ c.accepted, p ∈ (c.step op).accepted :=
    fun p hp => mem_accepted_step.mpr (Or.inl hp)
  have hkeyed : ∀ i, k.Correct i → TreeKeyed ((c.step op).tree i) := by
    intro i hi
    rw [tree_step hcalls hi]
    exact (h.keyed i hi).insertInto _
  have hsettled : ∀ i, k.Correct i → ∀ block, Settled k c i block →
      Settled k (c.step op) i block := by
    rintro i hi block ⟨hin, child, hchild, q, hq, hname, hview, hbacked⟩
    exact ⟨hgrows hi _ hin, child, hgrows hi _ hchild, q, hq, hname, hview, hbacked.mono hacc⟩
  -- old entries of a tree keep their justification
  have hjust : ∀ i, k.Correct i → ∀ block ∈ (c.tree i).values,
      justification ((c.step op).tree i) block.hash = justification (c.tree i) block.hash := by
    intro i hi block hb
    rw [justification, justification, (h.keyed i hi).get? hb, (hkeyed i hi).get? (hgrows hi _ hb)]
  constructor
  case keyed => exact hkeyed
  case bound =>
    intro i j hi hj x hx y hy he
    rcases (hmem hi).mp hx with hx | ⟨hio, hx⟩
    · rcases (hmem hj).mp hy with hy | ⟨hjo, hy⟩
      · exact h.bound i j hi hj x hx y hy he
      · exact (hrules (hjo ▸ hj)).names y hy i hi x hx he
    · rcases (hmem hj).mp hy with hy | ⟨hjo, hy⟩
      · exact ((hrules (hio ▸ hi)).names x hx j hj y hy he.symm).symm
      · exact Option.mem_unique hx hy
  case kept =>
    intro p hp hi
    rcases mem_accepted_step.mp hp with hp | ⟨hpo, hp⟩
    · exact hgrows hi _ (h.kept p hp hi)
    · exact (hmem hi).mpr (Or.inr ⟨hpo, inserts_of_signs hp⟩)
  case certified =>
    intro i hi block hb q hq
    rcases (hmem hi).mp hb with hb | ⟨hio, hb⟩
    · obtain ⟨hparent, hlt, hbacked⟩ := h.certified i hi block hb q hq
      exact ⟨hparent, hlt, hbacked.mono hacc⟩
    · have hio' : k.Correct op.1 := hio ▸ hi
      obtain ⟨hparent, hlt, -⟩ := (hrules hio').certifies block hb q hq
      exact ⟨hparent, hlt, (backed_of_inserts hroster hgenuine hrules hio' hb hq).mono hacc⟩
  case compatible =>
    intro p hp p' hp' he hi
    rcases mem_accepted_step.mp hp with hp | ⟨hpo, hp⟩
    · rcases mem_accepted_step.mp hp' with hp' | ⟨hpo', hp'⟩
      · exact h.compatible p hp p' hp' he hi
      · have hpo : p.1 = op.1 := he.trans hpo'
        exact (hrules (hpo ▸ hi)).votes _ hp' p hp hpo
    · rcases mem_accepted_step.mp hp' with hp' | ⟨hpo', hp'⟩
      · exact ((hrules (hpo ▸ hi)).votes _ hp p' hp' (he.symm.trans hpo)).symm
      · rw [Option.mem_unique hp hp']
        exact Block.Compatible.refl _
  case grounded =>
    intro i hi
    have hlog : ∀ l : List Block, (∀ b ∈ l, b ∈ (c.tree i).values) →
        Grounded (justification (c.tree i)) (l.map Block.hash) →
        Grounded (justification ((c.step op).tree i)) (l.map Block.hash) := by
      intro l hl hg
      refine hg.congr fun hash hin => ?_
      obtain ⟨b, hb, rfl⟩ := List.mem_map.mp hin
      exact hjust i hi b (hl b hb)
    rcases log_step h hcalls hi with heq | ⟨rfl, hop, heq⟩
    · rw [heq]
      exact hlog _ (fun b hb => (h.settled i hi b hb).1) (h.grounded i hi)
    · rw [heq]
      refine hlog _ (fun b hb => ?_) (grounded_commit h hi ((hrules hi).commits hop))
      rcases List.mem_append.mp hb with hb | hb
      · exact (h.settled _ hi b hb).1
      · exact (Replica.mem_ready.mp hb).1
  case settled =>
    intro i hi block hb
    rcases log_step h hcalls hi with heq | ⟨rfl, hop, heq⟩
    · rw [heq] at hb
      exact hsettled i hi block (h.settled i hi block hb)
    · rw [heq] at hb
      rcases List.mem_append.mp hb with hb | hb
      · exact hsettled _ hi block (h.settled _ hi block hb)
      · exact hsettled _ hi block (settled_of_ready h hi hb ((hrules hi).commits hop block hb))

/-- Handler calls keep the correct validators on the roster. -/
theorem OnRoster.calls (h : OnRoster k c) (hcalls : CallsOnly k c op) :
    OnRoster k (c.step op) := by
  intro i hi
  by_cases hne : i = op.1
  · subst hne
    obtain ⟨call, hcall⟩ := hcalls hi
    obtain ⟨i, now, op⟩ := op
    simp only at hcall
    subst hcall
    simp only [Cluster.step, Function.update_self, nodeAfter, Node.step]
    exact (h i hi).call k.n_mod (now, call)
  · simp only [Cluster.step, Function.update_of_ne hne]
    exact h i hi

/-- As long as correct validators are disciplined their committed logs agree, in any order of steps
and whatever the faulty ones send. -/
theorem logs_agree (hstart : Genesis k c) {ops : List (ReplicaId × Nat × ClusterOp)}
    (hcalls : Along step (CallsOnly k) c ops) (hgenuine : Along step (Genuine k) c ops)
    (hrules : Along step (Disciplined k) c ops) : Throughout step (LogsAgree k) c ops := by
  have hinv : Throughout step (fun c => OnRoster k c ∧ Coherent k c) c ops := by
    refine throughout_of_step (C := fun c op => CallsOnly k c op ∧ Genuine k c op ∧
      Disciplined k c op) ?_ ⟨hstart.roster, hstart.coherent⟩
      (along_and.mpr ⟨hcalls, along_and.mpr ⟨hgenuine, hrules⟩⟩)
    rintro c op ⟨hroster, hcoherent⟩ ⟨hcalls, hgenuine, hrules⟩
    exact ⟨hroster.calls hcalls, hcoherent.step hroster hcalls hgenuine hrules⟩
  exact fun pre hpre => (hinv pre hpre).2.logsAgree

end Step

section Samples

open Sample

/-- One validator commits all it can. -/
def commit (i now : Nat) : ReplicaId × Nat × ClusterOp := (i, now, .node (.call .commitAll))

/-- Leaders 0, 1 and 2 extend one chain and two validators commit. -/
def straightOps : List (ReplicaId × Nat × ClusterOp) :=
  [deliver 1 1 (block 1 0 0 0 none), deliver 2 1 (block 1 0 0 0 none),
    deliver 3 1 (block 1 0 0 0 none),
    deliver 1 2 (block 2 1 1 1 (some (qc [1, 2, 3] 1 0 0))),
    deliver 2 2 (block 2 1 1 1 (some (qc [1, 2, 3] 1 0 0))),
    deliver 3 2 (block 2 1 1 1 (some (qc [1, 2, 3] 1 0 0))),
    deliver 1 3 (block 3 2 2 2 (some (qc [1, 2, 3] 2 1 0))),
    deliver 2 3 (block 3 2 2 2 (some (qc [1, 2, 3] 2 1 0))), commit 1 4, commit 2 4]

/-- Leader 0 of views 0, 4 and 8 builds one chain with validator 1, another with validator 2, and
validator 3 signs both. -/
def splitOps : List (ReplicaId × Nat × ClusterOp) :=
  [deliver 1 1 (block 1 0 0 0 none), deliver 3 1 (block 1 0 0 0 none),
    deliver 2 1 (block 4 0 0 0 none), deliver 3 1 (block 4 0 0 0 none),
    deliver 1 2 (block 2 1 4 0 (some (qc [0, 1, 3] 1 0 0))),
    deliver 3 2 (block 2 1 4 0 (some (qc [0, 1, 3] 1 0 0))),
    deliver 2 2 (block 5 4 4 0 (some (qc [0, 2, 3] 4 0 0))),
    deliver 3 2 (block 5 4 4 0 (some (qc [0, 2, 3] 4 0 0))),
    deliver 1 3 (block 3 2 8 0 (some (qc [0, 1, 3] 2 4 0))),
    deliver 2 3 (block 6 5 8 0 (some (qc [0, 2, 3] 5 4 0))), commit 1 4, commit 2 4]

theorem fourValidators_genesis : Genesis committee fourValidators :=
  ⟨rfl, fourValidators_onRoster, fun _ _ => rfl, fun _ _ => rfl⟩

theorem straight_calls : Along step (CallsOnly committee) fourValidators straightOps :=
  along_of_mem (by simp [straightOps, deliver, commit, CallsOnly]) _

theorem logs_agree_straight :
    Throughout step (LogsAgree committee) fourValidators straightOps := by
  have hsigned : Along step (SignersAccepted committee) fourValidators straightOps := by
    decide +kernel
  exact logs_agree fourValidators_genesis straight_calls
    (hsigned.mono fun _ _ => genuine_of_signersAccepted) (by decide +kernel)

/-- One faulty leader splits the logs of two correct validators. -/
theorem logs_split :
    Genesis committee fourValidators ∧ Along step (CallsOnly committee) fourValidators splitOps ∧
      Along step (Genuine committee) fourValidators splitOps ∧
      ¬ Throughout step (LogsAgree committee) fourValidators splitOps := by
  have hsigned : Along step (SignersAccepted committee) fourValidators splitOps := by
    decide +kernel
  refine ⟨fourValidators_genesis, ?_, hsigned.mono fun _ _ => genuine_of_signersAccepted, ?_⟩
  · exact along_of_mem (by simp [splitOps, deliver, commit, CallsOnly]) _
  · intro h
    have hagree := h splitOps (List.prefix_refl _) 1 2 (by decide) (by decide) 0
      (block 1 0 0 0 none) (block 4 0 0 0 none) (by decide +kernel) (by decide +kernel)
    exact absurd hagree (by decide)

end Samples

end Cluster

end PersistHotStuff
