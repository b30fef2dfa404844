import PersistHotStuff.Durability.AppState
import PersistHotStuff.Handlers.Application

/-!
# A node as the host of an application

A node that calls, snapshots, restarts and the attachment of applications happen
to. The application state is kept in the snapshots and comes back after a restart,
but it never finds its way into the replica: two nodes to which the same happens
are the same replica with the same log, whatever applications are attached to them.
-/

namespace PersistHotStuff

open Basis

/-- What happens to a node that hosts applications with states in `σ`. -/
inductive HostOp (σ : Type)
  | node (op : NodeOp)
  | attach (app : σ)
  deriving DecidableEq

/-- The operations on the node itself. -/
def HostOp.nodeOps {σ : Type} (ops : List (Nat × HostOp σ)) : List (Nat × NodeOp) :=
  ops.filterMap fun op =>
    match op.2 with
    | .node o => some (op.1, o)
    | .attach _ => none

namespace Replica

variable {σ τ : Type} [Bincode LogEntry] [Bincode Snapshot] [Crc32] [Sha256] [App σ] [App τ]

/-- A snapshot is saved, and what is older is cleaned up if the log could be truncated. -/
theorem takeSnapshot_dir (r : Replica σ) (now : Nat) (dir : DataDir) :
    (r.takeSnapshot now dir).2.2 =
      if (r.takeSnapshot now dir).1.isOk then cleanupOld ((r.captureSnapshot now).save dir) 3
      else (r.captureSnapshot now).save dir := by
  cases hwal : r.wal with
  | none =>
    simp only [takeSnapshot, record, hwal, Option.map_none]
    rfl
  | some wal =>
    simp only [takeSnapshot, record, hwal, Option.map_some]
    generalize WAL.truncateAfterSnapshot now
      (wal.append (.snapshotTaken r.snapshotCounter r.committedUpTo now)).2
      ((r.captureSnapshot now).save dir).walTmp = outcome
    rcases outcome with ⟨_ | _, wal⟩ <;> rfl

/-- A snapshot is taken as with any other application. -/
theorem takeSnapshot_withApp (r : Replica σ) (app : Option τ) (pending : Option Bytes) (now : Nat)
    {dir dir' : DataDir} (htmp : dir'.walTmp = dir.walTmp) :
    (r.withApp app pending).takeSnapshot now dir' =
      ((r.takeSnapshot now dir).1, (r.takeSnapshot now dir).2.1.withApp app pending,
        if (r.takeSnapshot now dir).1.isOk then
          cleanupOld (((r.withApp app pending).captureSnapshot now).save dir') 3
        else ((r.withApp app pending).captureSnapshot now).save dir') := by
  have hfields : (r.withApp app pending).snapshotCounter = r.snapshotCounter ∧
      (r.withApp app pending).committedUpTo = r.committedUpTo := ⟨rfl, rfl⟩
  have hsaved : (((r.withApp app pending).captureSnapshot now).save dir').walTmp =
      ((r.captureSnapshot now).save dir).walTmp := htmp
  cases hwal : r.wal with
  | none =>
    simp only [takeSnapshot, record, withApp_wal, hwal, Option.map_none]
    rfl
  | some wal =>
    simp only [takeSnapshot, record, withApp_wal, hwal, Option.map_some, hfields.1, hfields.2,
      hsaved]
    generalize WAL.truncateAfterSnapshot now
      (wal.append (.snapshotTaken r.snapshotCounter r.committedUpTo now)).2
      ((r.captureSnapshot now).save dir).walTmp = outcome
    rcases outcome with ⟨_ | _, wal⟩ <;> rfl

omit [App τ] in
/-- A snapshot leaves the application alone. -/
theorem takeSnapshot_told (r : Replica σ) (now : Nat) (dir : DataDir) :
    (r.takeSnapshot now dir).2.1.app = r.app ∧
      (r.takeSnapshot now dir).2.1.pendingAppState = r.pendingAppState := by
  have hself := congrArg (fun out => out.2.1)
    (r.takeSnapshot_withApp r.app r.pendingAppState now (rfl : dir.walTmp = dir.walTmp))
  rw [withApp_self] at hself
  have happ := congrArg Replica.app hself
  have hpending := congrArg Replica.pendingAppState hself
  exact ⟨happ, hpending⟩

end Replica

/-- A recovered replica has no application, whatever is to be attached to it. -/
theorem recover_withApp {σ τ : Type} [Bincode LogEntry] [Bincode Snapshot] [Crc32] [Sha256]
    (now : Nat) (config : Config) (keystore : KeyStore) (dir : DataDir) :
    recover (σ := τ) now config keystore dir =
      (recover (σ := σ) now config keystore dir).map fun p =>
        (p.1.withApp none p.1.pendingAppState, p.2) := by
  simp only [recover]
  cases loadBase config dir with
  | error e => rfl
  | ok base =>
    dsimp only
    cases replayLog now config dir base.state <;> rfl

namespace Node

variable {σ τ : Type}

section

variable [Bincode Snapshot] [Sha256]

/-- Two serialised snapshots of the same number that differ in the application state at most. -/
def SameSnapshot (seq : Nat) (bytes bytes' : Bytes) : Prop :=
  ∃ (snap : Snapshot) (state : Option Bytes), snap.snapshotId = seq ∧
    bytes = Bincode.serialize snap ∧ bytes' = Bincode.serialize { snap with appState := state }

/-- Two directories with the same log and the same snapshots, each with its checksum, but for the
application states in them. -/
structure SameFiles (dir dir' : DataDir) : Prop where
  wal : dir'.wal = dir.wal
  walTmp : dir'.walTmp = dir.walTmp
  bins : ∀ seq, Option.Rel (SameSnapshot seq) (dir.bins.get? seq) (dir'.bins.get? seq)
  shas : ∀ seq, dir.shas.get? seq = (dir.bins.get? seq).map Snapshot.checksum
  shas' : ∀ seq, dir'.shas.get? seq = (dir'.bins.get? seq).map Snapshot.checksum

theorem sameFiles_empty : SameFiles DataDir.empty DataDir.empty :=
  ⟨rfl, rfl, fun _ => .none, fun _ => rfl, fun _ => rfl⟩

variable {dir dir' : DataDir}

omit [Bincode Snapshot] [Sha256] in
theorem isSome_of_rel {α β : Type} {R : α → β → Prop} {a : Option α} {b : Option β}
    (h : Option.Rel R a b) : b.isSome = a.isSome := by
  cases h <;> rfl

omit [Sha256] in
theorem keys_eq_of_rel {bins bins' : OrdMap Nat Bytes}
    (h : ∀ seq, Option.Rel (SameSnapshot seq) (bins.get? seq) (bins'.get? seq)) :
    bins'.keys = bins.keys := by
  have hmem : ∀ seq, seq ∈ bins'.keys ↔ seq ∈ bins.keys := by
    intro seq
    rw [OrdMap.mem_keys, OrdMap.mem_keys, OrdMap.contains, OrdMap.contains, isSome_of_rel (h seq)]
  exact List.Perm.eq_of_pairwise' bins'.keys_pairwise bins.keys_pairwise
    ((List.perm_ext_iff_of_nodup (bins'.keys_pairwise.imp fun h => h.ne)
      (bins.keys_pairwise.imp fun h => h.ne)).mpr hmem)

/-- Snapshots that differ in the application state are saved to directories that do. -/
theorem SameFiles.save (h : SameFiles dir dir') (snap : Snapshot) (state : Option Bytes) :
    SameFiles (snap.save dir) (({ snap with appState := state } : Snapshot).save dir') := by
  refine ⟨h.wal, h.walTmp, fun seq => ?_, fun seq => ?_, fun seq => ?_⟩
  · simp only [Snapshot.save, OrdMap.get?_insert]
    split
    · next heq => exact .some ⟨snap, state, heq.symm, rfl, rfl⟩
    · exact h.bins seq
  · simp only [Snapshot.save, OrdMap.get?_insert]
    split
    · rfl
    · exact h.shas seq
  · simp only [Snapshot.save, OrdMap.get?_insert]
    split
    · rfl
    · exact h.shas' seq

/-- The same snapshots are cleaned up. -/
theorem SameFiles.cleanupOld (h : SameFiles dir dir') (keep : Nat) :
    SameFiles (cleanupOld dir keep) (cleanupOld dir' keep) := by
  have hkeys := keys_eq_of_rel h.bins
  have hexpired : expired dir' keep = expired dir keep := by
    rw [expired, expired, ← OrdMap.length_keys, ← OrdMap.length_keys, hkeys]
  obtain ⟨hwal, htmp⟩ := cleanupOld_wal dir keep
  obtain ⟨hwal', htmp'⟩ := cleanupOld_wal dir' keep
  refine ⟨by rw [hwal, hwal', h.wal], by rw [htmp, htmp', h.walTmp], fun seq => ?_, fun seq => ?_,
    fun seq => ?_⟩
  · rw [cleanupOld_bins, cleanupOld_bins, hexpired]
    split
    · exact .none
    · exact h.bins seq
  · rw [cleanupOld_shas, cleanupOld_bins]
    split
    · rfl
    · exact h.shas seq
  · rw [cleanupOld_shas, cleanupOld_bins]
    split
    · rfl
    · exact h.shas' seq

/-- The newest snapshots of the two differ in the application state, or both have none. -/
theorem SameFiles.store (h : SameFiles dir dir') :
    StoreHolds dir none ∧ StoreHolds dir' none ∨
      ∃ (snap : Snapshot) (state : Option Bytes), StoreHolds dir (some snap) ∧
        StoreHolds dir' (some { snap with appState := state }) := by
  have hcontains : ∀ seq, dir'.bins.contains seq = dir.bins.contains seq := fun seq =>
    isSome_of_rel (h.bins seq)
  have hchecksum : ∀ {dir : DataDir} {seq : Nat} {bytes : Bytes},
      (∀ seq, dir.shas.get? seq = (dir.bins.get? seq).map Snapshot.checksum) →
      dir.bins.get? seq = some bytes →
      ∀ content ∈ dir.shas.get? seq, content = Snapshot.checksum bytes := by
    intro dir seq bytes hshas hbin content hcontent
    rw [hshas, hbin] at hcontent
    exact (Option.some.inj hcontent).symm
  cases hlast : dir.bins.last? with
  | none =>
    refine .inl ⟨hlast, OrdMap.last?_eq_none.mpr fun seq => ?_⟩
    rw [hcontains]
    exact OrdMap.last?_eq_none.mp hlast seq
  | some last =>
    obtain ⟨seq, bytes⟩ := last
    obtain ⟨hget, hmax⟩ := OrdMap.last?_eq_some hlast
    obtain ⟨bytes', hget', snap, state, rfl, rfl, rfl⟩ :
        ∃ bytes', dir'.bins.get? seq = some bytes' ∧ SameSnapshot seq bytes bytes' := by
      have hrel := h.bins seq
      rw [hget] at hrel
      generalize dir'.bins.get? seq = found at hrel
      cases hrel with
      | some hsame => exact ⟨_, rfl, hsame⟩
    refine .inr ⟨snap, state, ⟨hlast, hchecksum h.shas hget⟩,
      OrdMap.last?_eq_some_iff.mpr ⟨hget', fun k hk => hmax k ?_⟩, hchecksum h.shas' hget'⟩
    rwa [hcontains] at hk

/-- The two give recovery the same base, but for the pending application state. -/
theorem SameFiles.base [LawfulBincode Snapshot] (h : SameFiles dir dir') (config : Config) :
    ∃ base pending, loadBase config dir = .ok base ∧
      loadBase config dir' = .ok { base with pendingAppState := pending } := by
  rcases h.store with ⟨hstore, hstore'⟩ | ⟨snap, state, hstore, hstore'⟩
  · exact ⟨_, _, loadBase_of_storeHolds hstore config, loadBase_of_storeHolds hstore' config⟩
  · exact ⟨_, state, loadBase_of_storeHolds hstore config, loadBase_of_storeHolds hstore' config⟩

omit [Sha256] in
/-- What differs from one snapshot in the application state differs so from each other. -/
theorem SameSnapshot.join [LawfulBincode Snapshot] {seq : Nat} {bytes bytes' bytes'' : Bytes}
    (h : SameSnapshot seq bytes bytes'') (h' : SameSnapshot seq bytes' bytes'') :
    SameSnapshot seq bytes bytes' := by
  obtain ⟨snap, state, hseq, rfl, hright⟩ := h
  obtain ⟨snap', state', -, rfl, hright'⟩ := h'
  have hsnap : some ({ snap with appState := state } : Snapshot) =
      some { snap' with appState := state' } := by
    rw [← LawfulBincode.deserialize_serialize (α := Snapshot), ← hright, hright',
      LawfulBincode.deserialize_serialize]
  refine ⟨snap, snap'.appState, hseq, rfl, ?_⟩
  have hsame := congrArg (fun s : Snapshot => { s with appState := snap'.appState })
    (Option.some.inj hsnap)
  exact congrArg Bincode.serialize hsame.symm

theorem SameFiles.join [LawfulBincode Snapshot] {dir'' : DataDir} (h : SameFiles dir dir'')
    (h' : SameFiles dir' dir'') : SameFiles dir dir' := by
  refine ⟨h'.wal.symm.trans h.wal, h'.walTmp.symm.trans h.walTmp, fun seq => ?_, h.shas, h'.shas⟩
  have hrel := h.bins seq
  have hrel' := h'.bins seq
  generalize dir''.bins.get? seq = third at hrel hrel'
  generalize dir.bins.get? seq = first at hrel ⊢
  generalize dir'.bins.get? seq = second at hrel' ⊢
  cases hrel with
  | none =>
    cases hrel'
    exact .none
  | some hsame =>
    cases hrel' with
    | some hsame' => exact .some (hsame.join hsame')

theorem SameFiles.right (h : SameFiles dir dir') : SameFiles dir' dir' := by
  refine ⟨rfl, rfl, fun seq => ?_, h.shas', h.shas'⟩
  have hrel := h.bins seq
  generalize dir.bins.get? seq = first at hrel
  generalize dir'.bins.get? seq = second at hrel ⊢
  cases hrel with
  | none => exact .none
  | some hsame =>
    obtain ⟨snap, state, hseq, -, rfl⟩ := hsame
    exact .some ⟨{ snap with appState := state }, state, hseq, rfl, rfl⟩

variable [Bincode LogEntry] [Crc32]

/-- Recovery from the two gives replicas that differ in the pending application state. -/
theorem SameFiles.recovered [LawfulBincode Snapshot] (h : SameFiles dir dir') (now : Nat)
    (config : Config) (keystore : KeyStore) :
    ∃ pending, recover (σ := τ) now config keystore dir' =
      (recover (σ := σ) now config keystore dir).map fun p =>
        (p.1.withApp none pending, p.2) := by
  obtain ⟨base, pending, hbase, hbase'⟩ := h.base config
  have hlog : ∀ st, replayLog now config dir' st = replayLog now config dir st := by
    intro st
    simp only [replayLog, h.wal]
  refine ⟨pending, ?_⟩
  simp only [recover, hbase, hbase', hlog]
  cases replayLog now config dir base.state <;> rfl

end

section Bystander

variable [Ed25519] [Sha256] [Bincode LogEntry] [Bincode Snapshot] [Crc32] [App σ] [App τ]

/-- The node after an operation at a time. -/
def host (node : Node σ) (op : Nat × HostOp σ) : Node σ :=
  match op.2 with
  | .node o => node.step (op.1, o)
  | .attach app => node.attachApp app

/-- What the node answers to an operation. -/
def answers (node : Node σ) (op : Nat × NodeOp) : List Answer :=
  match op.2 with
  | .call call => [node.replica.answer (op.1, call)]
  | _ => []

/-- What a node that hosts applications answers. -/
def hostAnswers (node : Node σ) (op : Nat × HostOp σ) : List Answer :=
  match op.2 with
  | .node o => node.answers (op.1, o)
  | .attach _ => []

/-- Two nodes that differ in their applications and in the application states they keep. -/
structure Alike (node : Node σ) (node' : Node τ) : Prop where
  replica : ∃ app pending, node'.replica = node.replica.withApp app pending
  files : SameFiles node.dir node'.dir

variable {node : Node σ} {node' : Node τ}

omit [Ed25519] in
/-- The same snapshot is taken, but for the application state in it. -/
theorem Alike.takeSnapshot (h : Alike node node') (now : Nat) :
    Alike
      ⟨(node.replica.takeSnapshot now node.dir).2.1, (node.replica.takeSnapshot now node.dir).2.2⟩
      ⟨(node'.replica.takeSnapshot now node'.dir).2.1,
        (node'.replica.takeSnapshot now node'.dir).2.2⟩ := by
  obtain ⟨r, dir⟩ := node
  obtain ⟨r', dir'⟩ := node'
  obtain ⟨⟨app, pending, hreplica⟩, hfiles⟩ := h
  dsimp only at hreplica hfiles
  subst hreplica
  have hsaved := hfiles.save (r.captureSnapshot now)
    ((r.withApp app pending).captureSnapshot now).appState
  refine ⟨⟨app, pending, ?_⟩, ?_⟩
  · rw [r.takeSnapshot_withApp app pending now hfiles.walTmp]
  · rw [r.takeSnapshot_withApp app pending now hfiles.walTmp, r.takeSnapshot_dir now dir]
    dsimp only
    split
    · exact hsaved.cleanupOld 3
    · exact hsaved

omit [Ed25519] [Bincode LogEntry] [Crc32] [App σ] [App τ] in
theorem Alike.onDisk (h : Alike node node') :
    SameFiles (node.replica.onDisk node.dir) (node'.replica.onDisk node'.dir) := by
  obtain ⟨⟨app, pending, hreplica⟩, hfiles⟩ := h
  rw [hreplica]
  simp only [Replica.onDisk, Replica.withApp_wal]
  cases node.replica.wal with
  | none => exact hfiles
  | some wal => exact ⟨rfl, hfiles.walTmp, hfiles.bins, hfiles.shas, hfiles.shas'⟩

/-- What happens to two alike nodes leaves them alike. -/
theorem Alike.step [LawfulBincode Snapshot] (h : Alike node node') (op : Nat × NodeOp) :
    Alike (node.step op) (node'.step op) := by
  obtain ⟨now, op⟩ := op
  cases op with
  | takeSnapshot => exact h.takeSnapshot now
  | call call =>
    obtain ⟨⟨app, pending, hreplica⟩, hfiles⟩ := h
    have hstep := node.replica.step_withApp app pending (now, call)
    rw [← hreplica] at hstep
    exact ⟨⟨_, pending, hstep⟩, hfiles⟩
  | restart config keystore =>
    have hdisk := h.onDisk
    obtain ⟨pending, hrecovered⟩ := hdisk.recovered (σ := σ) (τ := τ) now config keystore
    simp only [Node.step, restart, hrecovered]
    cases recover (σ := σ) now config keystore (node.replica.onDisk node.dir) with
    | error e => exact h
    | ok p => exact ⟨⟨none, pending, rfl⟩, hdisk⟩

omit [App σ] [App τ] in
theorem Alike.answers (h : Alike node node') (op : Nat × NodeOp) :
    node'.answers op = node.answers op := by
  obtain ⟨⟨app, pending, hreplica⟩, -⟩ := h
  obtain ⟨now, op⟩ := op
  cases op with
  | call call => simp only [Node.answers, hreplica, Replica.answer_withApp]
  | _ => rfl

omit [Ed25519] [Bincode LogEntry] [Crc32] [App τ] in
/-- An attachment gives the node another application and that is all. -/
theorem Alike.attachApp (h : Alike node node') (app : σ) : Alike (node.attachApp app) node' := by
  obtain ⟨⟨other, pending, hreplica⟩, hfiles⟩ := h
  exact ⟨⟨other, pending, hreplica⟩, hfiles⟩

/-- A node that hosts applications is like one to which the same happens without them, and answers
the same. -/
theorem Alike.run [LawfulBincode Snapshot] (h : Alike node node') (ops : List (Nat × HostOp σ)) :
    Alike (run host node ops) (run Node.step node' (HostOp.nodeOps ops)) ∧
      outputs host hostAnswers node ops =
        outputs Node.step Node.answers node' (HostOp.nodeOps ops) := by
  induction ops generalizing node node' with
  | nil => exact ⟨h, rfl⟩
  | cons op ops ih =>
    obtain ⟨now, op⟩ := op
    cases op with
    | attach app => exact ih (h.attachApp app)
    | node op =>
      obtain ⟨halike, houtputs⟩ := ih (h.step (now, op))
      refine ⟨halike, ?_⟩
      show node.answers (now, op) ++ outputs host hostAnswers (node.step (now, op)) ops = _
      rw [houtputs, ← h.answers]
      rfl

omit [Ed25519] [Bincode LogEntry] [Crc32] [App σ] [App τ] in
theorem Alike.join [LawfulBincode Snapshot] {υ : Type} {node'' : Node υ} (h : Alike node node'')
    (h' : Alike node' node'') : Alike node node' := by
  obtain ⟨⟨app, pending, hreplica⟩, hfiles⟩ := h
  obtain ⟨⟨app', pending', hreplica'⟩, hfiles'⟩ := h'
  refine ⟨⟨node'.replica.app, node'.replica.pendingAppState, ?_⟩, hfiles.join hfiles'⟩
  have hsame := congrArg
    (fun r => r.withApp node'.replica.app node'.replica.pendingAppState)
    (hreplica'.symm.trans hreplica)
  exact hsame

/-- The applications are bystanders. If the same happens to two nodes that differ in their
applications, calls, snapshots and restarts in the same order, they answer the same and still
differ in nothing else, whatever applications were attached to them when. -/
theorem host_alike [LawfulBincode Snapshot] (h : Alike node node')
    {ops : List (Nat × HostOp σ)} {ops' : List (Nat × HostOp τ)}
    (hops : HostOp.nodeOps ops = HostOp.nodeOps ops') :
    Alike (run host node ops) (run host node' ops') ∧
      outputs host hostAnswers node ops = outputs host hostAnswers node' ops' := by
  have hself : Alike node' node' := ⟨⟨_, _, node'.replica.withApp_self.symm⟩, h.files.right⟩
  obtain ⟨halike, houtputs⟩ := h.run ops
  obtain ⟨halike', houtputs'⟩ := hself.run ops'
  rw [hops] at halike houtputs
  exact ⟨halike.join halike', houtputs.trans houtputs'.symm⟩

end Bystander

section Samples

open Sample

/-- The first start of replica 3 of four, for an application that ignores everything. -/
def idleNode : Node NoOpApp := ⟨storeNode.replica.withApp none none, DataDir.empty⟩

/-- A store is attached before a key is set and committed; after a snapshot and a restart nothing
is attached any more. -/
def storeHosted : List (Nat × HostOp KeyValueApp) :=
  (0, .attach KeyValueApp.new) :: (writeOps.map fun op => (op.1, .node op.2)) ++
    [(5, .node .takeSnapshot), (6, .node (.restart (party 4 3).config (keyStore 4 3))),
      (7, .node (.call (.handleVote (vote 2 3 2 0))))]

/-- The same, but nothing is attached before the restart. -/
def idleHosted : List (Nat × HostOp NoOpApp) :=
  (writeOps.map fun op => (op.1, .node op.2)) ++
    [(5, .node .takeSnapshot), (6, .node (.restart (party 4 3).config (keyStore 4 3))),
      (6, .attach {}), (7, .node (.call (.handleVote (vote 2 3 2 0))))]

theorem host_alike_restarted :
    (run host storeNode storeHosted).replica.pendingAppState.isSome = true ∧
      (run host idleNode idleHosted).replica.pendingAppState = none ∧
      Alike (run host storeNode storeHosted) (run host idleNode idleHosted) ∧
      outputs host hostAnswers storeNode storeHosted =
        outputs host hostAnswers idleNode idleHosted :=
  ⟨by decide +kernel, by decide +kernel,
    host_alike ⟨⟨none, none, rfl⟩, sameFiles_empty⟩ (by decide)⟩

end Samples

end Node

end PersistHotStuff
