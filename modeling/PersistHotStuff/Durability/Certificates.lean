import PersistHotStuff.Durability.Pointers

/-!
# Recovered certificates

Neither the log nor a snapshot stores signatures. So a recovered replica has the
high certificate without them: it knows what was certified, but cannot show it
to anyone, and no replica accepts the next block it proposes.
-/

namespace PersistHotStuff

open Basis

/-- A certificate that lists no signatures. -/
def Unsigned (high : Option QuorumCert) : Prop := ∀ q ∈ high, q.signatures = []

/-- No quorum verifies a certificate without signatures. -/
theorem verifyQc_unsigned [Ed25519] [Sha256] {q : QuorumCert} (h : q.signatures = [])
    (keystore : KeyStore) {quorum : Nat} (hquorum : 0 < quorum) :
    keystore.verifyQc q quorum = false := by
  have hnone : keystore.validSigners q = ∅ := by
    rw [KeyStore.validSigners, h]
    rfl
  rw [KeyStore.verifyQc, hnone, Finset.card_empty, decide_eq_false_iff_not]
  exact not_le.mpr hquorum

theorem baseState_unsigned (snap : Option Snapshot) : Unsigned (baseState snap).highQc := by
  cases snap with
  | none => exact fun q hq => by cases hq
  | some snap =>
    intro q hq
    obtain ⟨stored, -, rfl⟩ := Option.map_eq_some_iff.mp hq
    rfl

/-- Replay of a record sets certificates without signatures only. -/
theorem replayEntry_unsigned {entry : LogEntry} {st st' : Recovered} (h : Unsigned st.highQc)
    (hreplay : replayEntry entry st = .ok st') : Unsigned st'.highQc := by
  cases entry with
  | qcFormed blockHash view epoch signerCount timestamp =>
    cases hreplay
    intro q hq
    rw [Option.mem_def] at hq
    simp only at hq
    cases hhigh : st.highQc with
    | none =>
      rw [hhigh] at hq
      cases hq
      rfl
    | some high =>
      rw [hhigh] at hq
      by_cases hlt : high.view < view
      · simp only [hlt, decide_true, if_true] at hq
        cases hq
        rfl
      · simp only [hlt, decide_false, Bool.false_eq_true, if_false] at hq
        exact h q (hhigh.trans hq)
  | highQcUpdated blockHash view epoch timestamp =>
    cases hreplay
    intro q hq
    cases hq
    rfl
  | blockCommitted hash parent view epoch proposer command commitIndex timestamp =>
    rw [replayEntry_commit hreplay]
    exact h
  | _ =>
    cases hreplay
    exact h

/-- Replay ends without signatures. -/
theorem replayEntries_unsigned {entries : List LogEntry} {st st' : Recovered}
    (h : Unsigned st.highQc) (hreplay : replayEntries entries st = .ok st') :
    Unsigned st'.highQc :=
  replayEntries_preserves (I := fun st => Unsigned st.highQc)
    (fun _ _ _ _ h hone => replayEntry_unsigned h hone) hreplay h

section

variable {σ : Type} [Bincode LogEntry] [Bincode Snapshot] [Crc32] [Sha256]

/-- Whatever directory a replica is recovered from, its certificate has no signatures. -/
theorem recover_unsigned {now : Nat} {config : Config} {keystore : KeyStore} {dir : DataDir}
    {r : Replica σ} {wal : WAL} (h : recover now config keystore dir = .ok (r, wal)) :
    Unsigned r.highQc := by
  obtain ⟨base, st, hbase, hlog, rfl⟩ := recover_ok_iff.mp h
  have hunsigned : Unsigned base.state.highQc := by
    simp only [loadBase] at hbase
    split at hbase
    · rename_i snap _
      cases hbase
      exact baseState_unsigned (some snap)
    · cases hbase
      exact baseState_unsigned none
    · cases hbase
  show Unsigned st.highQc
  rcases replayLog_cases hlog with rfl | ⟨entries, hreplay⟩
  · exact hunsigned
  · exact replayEntries_unsigned hunsigned hreplay

variable [Ed25519]

/-- Wherever a node is restarted, it does not come back with a certificate that every replica of its
membership verifies, and no replica accepts a block it proposes with the one it has. -/
theorem Node.restart_certificate (node : Node σ) (config : Config) (keystore : KeyStore)
    (now : Nat) :
    (¬ ∃ recovered qc, node.restart config keystore now = .ok recovered ∧
        recovered.replica.highQc = some qc ∧
        ∀ s : Replica σ, s.membership = node.replica.membership →
          s.keystore.verifyQc qc s.dynamicQuorumSize = true) ∧
      ∀ recovered, node.restart config keystore now = .ok recovered →
        ∀ later view how block, (recovered.replica.proposeBy later view how).2 = some block →
          block.qc.isSome = true → ∀ s : Replica σ, s.acceptsProposal block = false := by
  have hquorum : ∀ s : Replica σ, 0 < s.dynamicQuorumSize := fun s => Nat.succ_pos _
  have hunsigned : ∀ recovered, node.restart config keystore now = .ok recovered →
      Unsigned recovered.replica.highQc := by
    intro recovered h
    obtain ⟨r, wal, hrec, rfl⟩ := Node.restart_ok_iff.mp h
    have hu : Unsigned r.highQc := recover_unsigned hrec
    exact hu
  constructor
  · rintro ⟨recovered, qc, h, hqc, hverify⟩
    have hself := hverify node.replica rfl
    rw [verifyQc_unsigned (hunsigned recovered h qc hqc) _ (hquorum _)] at hself
    cases hself
  · intro recovered h later view how block hblock hsome s
    have hqc : block.qc = recovered.replica.highQc := by
      rcases recovered.replica.proposeBy_cases later view how with hp | ⟨-, _, _, _, _, hp⟩
      · rw [hp] at hblock
        cases hblock
      · rw [hp] at hblock
        cases hblock
        rfl
    obtain ⟨q, hq⟩ := Option.isSome_iff_exists.mp hsome
    have hno := verifyQc_unsigned (hunsigned recovered h q (hqc ▸ hq)) s.keystore (hquorum s)
    rw [← Bool.not_eq_true, Replica.acceptsProposal_iff]
    rintro ⟨-, -, -, hcert⟩
    rw [(hcert q hq).2.1] at hno
    cases hno

end

section Samples

open Sample Node

/-- Whether the high certificate of a replica verifies at the replica itself. -/
def holdsVerifiedQc (r : Replica NoOpApp) : Bool :=
  r.highQc.any fun q => r.keystore.verifyQc q r.dynamicQuorumSize

/-- Replica 3 accepts a block and learns of its certificate. -/
def certifiedOps : List (Nat × NodeOp) :=
  [(1, .call (.validateAndInsertProposal (block 1 0 0 0 none))),
    (2, .call (.applyHighQcFromNetwork (qc [0, 1, 2] 1 0 0)))]

/-- Some rounds of a simulation. -/
def rounds (sim : Simulation NoOpApp) (times : List Nat) : Simulation NoOpApp :=
  times.foldl (fun sim now => (sim.runOneRound now).1) sim

/-- Four replicas run two rounds over empty directories, and are restarted from what they left on
disk. -/
def restarted : Except SimulationError (Simulation NoOpApp) :=
  let keys := (List.range 4).map fun i => (i, signingKey i)
  match Simulation.newWithPersistence 0 1 20 keys (List.replicate 4 DataDir.empty) with
  | .error e => .error e
  | .ok sim =>
      let sim := rounds sim [1, 2]
      Simulation.newWithPersistence 9 1 20 keys
        ((sim.replicas.zip sim.replicaDataDirs).map fun p => p.1.onDisk p.2)

/-- A certificate that verifies does not survive a restart, and a restarted simulation certifies no
block in six rounds. -/
theorem restart_loses_signatures :
    boot (party 4 3).config (keyStore 4 3) 0 = .ok firstNode ∧
      Along step ShortRecords firstNode certifiedOps ∧
      holdsVerifiedQc (run step firstNode certifiedOps).replica = true ∧
      ((run step firstNode certifiedOps).restart (party 4 3).config (keyStore 4 3) 9).map
        (fun node => holdsVerifiedQc node.replica) = .ok false ∧
      restarted.map (fun sim => (rounds sim [10, 11, 12, 13, 14, 15]).replicas.map Replica.highQc) =
        .ok (List.replicate 4 (some (qc [] 2 1 0))) := by
  refine ⟨by decide +kernel, by decide +kernel, by decide +kernel, by decide +kernel, ?_⟩
  decide +kernel

end Samples

end PersistHotStuff
