import PersistHotStuff.Basis.Crash
import PersistHotStuff.Durability.Node

/-!
# Crashes while a snapshot is taken

Taking a snapshot is a sequence of durable effects, cut short by a temporary log
that exists already. A crash may leave any image of them: a snapshot file counts
as soon as it exists, but is not readable before it is complete, nor is its
checksum; removals leave the newest snapshot alone.
-/

namespace PersistHotStuff

open Basis

section Effects

variable {σ : Type} [App σ] [Bincode LogEntry] [Bincode Snapshot] [Crc32] [Sha256] (now : Nat)
  (r : Replica σ)

/-- The bytes of the snapshot file. -/
def snapshotPayload : Bytes := Bincode.serialize (r.captureSnapshot now)

/-- The bytes the snapshot's record adds to the log. -/
def snapshotFrame : Bytes :=
  frame Crc32.hash
    (Bincode.serialize (LogEntry.snapshotTaken r.snapshotCounter r.committedUpTo now))

/-- Create and write the snapshot file. -/
def binEffect : Effect DataDir where
  size := (snapshotPayload now r).length
  part k d := { d with bins := d.bins.insert r.snapshotCounter ((snapshotPayload now r).take k) }

/-- Create and write the checksum. -/
def shaEffect : Effect DataDir where
  size := (Snapshot.checksum (snapshotPayload now r)).length
  part k d :=
    { d with
      shas := d.shas.insert r.snapshotCounter
        ((Snapshot.checksum (snapshotPayload now r)).take k) }

/-- Append the snapshot's record to the log. -/
def recordEffect : Effect DataDir where
  size := (snapshotFrame now r).length
  part k d := { d with wal := d.wal.map (· ++ (snapshotFrame now r).take k) }

/-- Create and write the temporary log. -/
def tmpEffect (replicaId : ReplicaId) : Effect DataDir where
  size := headerSize
  part k d := { d with walTmp := some ((walHeader now replicaId).take k) }

/-- Rename the temporary log over the log. -/
def renameEffect : Effect DataDir where
  size := 0
  part _ d := { d with wal := d.walTmp, walTmp := none }

/-- Remove the files of the expired snapshots, one by one. -/
def removalEffects (seqs : List Nat) : List (Effect DataDir) :=
  seqs.flatMap fun seq =>
    [{ size := 0, part := fun _ d => { d with bins := d.bins.erase seq } },
      { size := 0, part := fun _ d => { d with shas := d.shas.erase seq } }]

/-- The directory after the snapshot file and its checksum are written. -/
def savedDisk (d : DataDir) : DataDir := (shaEffect now r).complete ((binEffect now r).complete d)

/-- The directory after the log was replaced. -/
def renamedDisk (replicaId : ReplicaId) (d : DataDir) : DataDir :=
  renameEffect.complete
    ((tmpEffect now replicaId).complete ((recordEffect now r).complete (savedDisk now r d)))

/-- The removals at the end. -/
def cleanupEffects (replicaId : ReplicaId) (d : DataDir) : List (Effect DataDir) :=
  removalEffects (expired (renamedDisk now r replicaId d) 3)

/-- What `takeSnapshot` does to the directory, effect by effect. -/
def snapshotEffects (replicaId : ReplicaId) (d : DataDir) : List (Effect DataDir) :=
  binEffect now r :: shaEffect now r :: recordEffect now r ::
    -- a temporary log that exists already is an error
    if d.walTmp.isSome then []
    else tmpEffect now replicaId :: renameEffect :: cleanupEffects now r replicaId d

/-- Where a snapshot is cut: after `k` units of an effect, all effects before it complete. -/
inductive SnapshotCut
  | untouched
  | snapshotFile (k : Nat)
  | checksumFile (k : Nat)
  | logRecord (k : Nat)
  | temporaryLog (k : Nat)
  /-- The log is renamed and `k` removals are done. -/
  | renamed (k : Nat)
  deriving DecidableEq, Repr

/-- The cut is one the effects have. -/
def SnapshotCut.InBounds (replicaId : ReplicaId) (d : DataDir) : SnapshotCut → Prop
  | untouched => True
  | snapshotFile k => k ≤ (binEffect now r).size
  | checksumFile k => k ≤ (shaEffect now r).size
  | logRecord k => k ≤ (recordEffect now r).size
  | temporaryLog k => d.walTmp = none ∧ k ≤ (tmpEffect now replicaId).size
  | renamed k => d.walTmp = none ∧ k ≤ (cleanupEffects now r replicaId d).length

instance (replicaId : ReplicaId) (d : DataDir) :
    (cut : SnapshotCut) → Decidable (cut.InBounds now r replicaId d)
  | .untouched => .isTrue trivial
  | .snapshotFile k => inferInstanceAs (Decidable (k ≤ (binEffect now r).size))
  | .checksumFile k => inferInstanceAs (Decidable (k ≤ (shaEffect now r).size))
  | .logRecord k => inferInstanceAs (Decidable (k ≤ (recordEffect now r).size))
  | .temporaryLog k =>
      inferInstanceAs (Decidable (d.walTmp = none ∧ k ≤ (tmpEffect now replicaId).size))
  | .renamed k =>
      inferInstanceAs (Decidable (d.walTmp = none ∧ k ≤ (cleanupEffects now r replicaId d).length))

/-- The directory a cut leaves. -/
def SnapshotCut.disk (replicaId : ReplicaId) (d : DataDir) : SnapshotCut → DataDir
  | untouched => d
  | snapshotFile k => (binEffect now r).part k d
  | checksumFile k => (shaEffect now r).part k ((binEffect now r).complete d)
  | logRecord k => (recordEffect now r).part k (savedDisk now r d)
  | temporaryLog k =>
      (tmpEffect now replicaId).part k ((recordEffect now r).complete (savedDisk now r d))
  | renamed k =>
      Effect.outcome ((cleanupEffects now r replicaId d).take k) (renamedDisk now r replicaId d)

end Effects

/-- Removals are atomic: their images are their prefixes. -/
theorem image_removalEffects {seqs : List Nat} {d d' : DataDir} :
    Effect.Image (removalEffects seqs) d d' ↔
      ∃ k, k ≤ (removalEffects seqs).length ∧
        d' = Effect.outcome ((removalEffects seqs).take k) d := by
  have hatomic : ∀ e ∈ removalEffects seqs, e.size = 0 := by
    intro e he
    obtain ⟨seq, -, hin⟩ := List.mem_flatMap.mp he
    simp only [List.mem_cons, List.not_mem_nil, or_false] at hin
    rcases hin with rfl | rfl <;> rfl
  generalize removalEffects seqs = es at hatomic
  induction es generalizing d with
  | nil => simp [Effect.Image, Effect.outcome]
  | cons e es ih =>
    have hh := List.forall_mem_cons.mp hatomic
    have hrest : Effect.Image es (e.complete d) d' ↔
        ∃ k, k ≤ es.length ∧ d' = Effect.outcome (es.take k) (e.complete d) := ih hh.2
    rw [Effect.Image, hrest]
    constructor
    · rintro (h | ⟨k, hk, h⟩ | ⟨k, hk, h⟩)
      · exact ⟨0, Nat.zero_le _, h⟩
      · have hk0 : k = e.size := by omega
        subst hk0
        exact ⟨1, by simp, h⟩
      · exact ⟨k + 1, by simpa using hk, h⟩
    · rintro ⟨k, hk, h⟩
      cases k with
      | zero => exact Or.inl h
      | succ k => exact Or.inr (Or.inr ⟨k, by simpa using hk, h⟩)

/-- A temporary log that exists already is there after every cut. -/
theorem SnapshotCut.walTmp_disk {σ : Type} [App σ] [Bincode LogEntry] [Bincode Snapshot] [Crc32]
    [Sha256] {now : Nat} {r : Replica σ} {replicaId : ReplicaId} {d : DataDir} {cut : SnapshotCut}
    (hcut : cut.InBounds now r replicaId d) (htmp : d.walTmp ≠ none) :
    (cut.disk now r replicaId d).walTmp ≠ none := by
  cases cut with
  | temporaryLog k => exact Option.some_ne_none _
  | renamed k => exact absurd hcut.1 htmp
  | _ => exact htmp

/-- The cuts are exactly the images of the effects. -/
theorem image_snapshotEffects_iff {σ : Type} [App σ] [Bincode LogEntry] [Bincode Snapshot] [Crc32]
    [Sha256] {now : Nat} {r : Replica σ} {replicaId : ReplicaId} {d d' : DataDir} :
    Effect.Image (snapshotEffects now r replicaId d) d d' ↔
      ∃ cut : SnapshotCut, cut.InBounds now r replicaId d ∧ d' = cut.disk now r replicaId d := by
  have hzero : ∀ k, k ≤ (renameEffect).size → k = 0 := fun k hk => Nat.le_zero.mp hk
  have hnone : d.walTmp.isSome = true → d.walTmp ≠ none := fun hsome hnil => by
    rw [hnil] at hsome
    cases hsome
  rw [snapshotEffects]
  split
  · next htmp =>
    simp only [Effect.Image]
    constructor
    · rintro (h | ⟨k, hk, h⟩ | h | ⟨k, hk, h⟩ | h | ⟨k, hk, h⟩ | h)
      · exact ⟨.untouched, trivial, h⟩
      · exact ⟨.snapshotFile k, hk, h⟩
      · exact ⟨.snapshotFile _, le_rfl, h⟩
      · exact ⟨.checksumFile k, hk, h⟩
      · exact ⟨.checksumFile _, le_rfl, h⟩
      · exact ⟨.logRecord k, hk, h⟩
      · exact ⟨.logRecord _, le_rfl, h⟩
    · rintro ⟨cut, hb, h⟩
      cases cut with
      | untouched => exact Or.inl h
      | snapshotFile k => exact Or.inr (Or.inl ⟨k, hb, h⟩)
      | checksumFile k => exact Or.inr (Or.inr (Or.inr (Or.inl ⟨k, hb, h⟩)))
      | logRecord k => exact Or.inr (Or.inr (Or.inr (Or.inr (Or.inr (Or.inl ⟨k, hb, h⟩)))))
      | temporaryLog k => exact absurd hb.1 (hnone htmp)
      | renamed k => exact absurd hb.1 (hnone htmp)
  · next htmp =>
    have hnil : d.walTmp = none := Option.not_isSome_iff_eq_none.mp htmp
    simp only [Effect.Image, cleanupEffects, image_removalEffects]
    constructor
    · rintro (h | ⟨k, hk, h⟩ | h | ⟨k, hk, h⟩ | h | ⟨k, hk, h⟩ | h | ⟨k, hk, h⟩ | h | ⟨k, hk, h⟩ |
        ⟨k, hk, h⟩)
      · exact ⟨.untouched, trivial, h⟩
      · exact ⟨.snapshotFile k, hk, h⟩
      · exact ⟨.snapshotFile _, le_rfl, h⟩
      · exact ⟨.checksumFile k, hk, h⟩
      · exact ⟨.checksumFile _, le_rfl, h⟩
      · exact ⟨.logRecord k, hk, h⟩
      · exact ⟨.logRecord _, le_rfl, h⟩
      · exact ⟨.temporaryLog k, ⟨hnil, hk⟩, h⟩
      · exact ⟨.temporaryLog _, ⟨hnil, le_rfl⟩, h⟩
      · cases hzero k hk
        exact ⟨.renamed 0, ⟨hnil, Nat.zero_le _⟩, h⟩
      · exact ⟨.renamed k, ⟨hnil, hk⟩, h⟩
    · rintro ⟨cut, hb, h⟩
      cases cut with
      | untouched => exact Or.inl h
      | snapshotFile k => exact Or.inr (Or.inl ⟨k, hb, h⟩)
      | checksumFile k => exact Or.inr (Or.inr (Or.inr (Or.inl ⟨k, hb, h⟩)))
      | logRecord k => exact Or.inr (Or.inr (Or.inr (Or.inr (Or.inr (Or.inl ⟨k, hb, h⟩)))))
      | temporaryLog k =>
        exact Or.inr (Or.inr (Or.inr (Or.inr (Or.inr (Or.inr (Or.inr (Or.inl
          ⟨k, hb.2, h⟩)))))))
      | renamed k =>
        exact Or.inr (Or.inr (Or.inr (Or.inr (Or.inr (Or.inr (Or.inr (Or.inr (Or.inr (Or.inr
          ⟨k, hb.2, h⟩)))))))))

/-- The saved directory is what `Snapshot::save` leaves. -/
theorem savedDisk_eq {σ : Type} [App σ] [Bincode Snapshot] [Sha256] {now : Nat} {r : Replica σ}
    {d : DataDir} : savedDisk now r d = (r.captureSnapshot now).save d := by
  have hbin : (snapshotPayload now r).take (snapshotPayload now r).length =
      snapshotPayload now r := List.take_length
  have hsha : (Snapshot.checksum (snapshotPayload now r)).take
      (Snapshot.checksum (snapshotPayload now r)).length =
      Snapshot.checksum (snapshotPayload now r) := List.take_length
  simp only [savedDisk, Effect.complete, binEffect, shaEffect, hbin, hsha]
  rfl

/-- Removing the expired files one by one is cleaning up. -/
theorem outcome_removalEffects (seqs : List Nat) (d : DataDir) :
    Effect.outcome (removalEffects seqs) d =
      seqs.foldl
        (fun d seq => { d with bins := d.bins.erase seq, shas := d.shas.erase seq }) d := by
  induction seqs generalizing d with
  | nil => rfl
  | cons seq seqs ih => exact ih _

/-- Cleaning up reads and changes the snapshot files only. -/
theorem cleanupOld_withLogs (d : DataDir) (wal walTmp : Option Bytes) (keep : Nat) :
    cleanupOld { d with wal := wal, walTmp := walTmp } keep =
      { cleanupOld d keep with wal := wal, walTmp := walTmp } := by
  have hexpired : expired { d with wal := wal, walTmp := walTmp } keep = expired d keep := rfl
  have hlogs := cleanupOld_wal { d with wal := wal, walTmp := walTmp } keep
  have hbins := cleanupOld_bins { d with wal := wal, walTmp := walTmp } keep
  have hshas := cleanupOld_shas { d with wal := wal, walTmp := walTmp } keep
  generalize cleanupOld { d with wal := wal, walTmp := walTmp } keep = d' at hlogs hbins hshas
  obtain ⟨wal', walTmp', bins', shas'⟩ := d'
  simp only [hexpired] at hbins hshas
  rw [DataDir.mk.injEq]
  refine ⟨hlogs.1, hlogs.2, OrdMap.ext_get? fun seq => ?_, OrdMap.ext_get? fun seq => ?_⟩
  · rw [hbins, cleanupOld_bins]
  · rw [hshas, cleanupOld_shas]

/-- Dropping the handle of the log leaves the temporary log alone. -/
theorem Replica.onDisk_walTmp {σ : Type} (r : Replica σ) (dir : DataDir) :
    (r.onDisk dir).walTmp = dir.walTmp := by
  rw [Replica.onDisk]
  split <;> rfl

/-- Without a crash, the effects leave the directory `takeSnapshot` leaves, whether it succeeds or
not. -/
theorem outcome_snapshotEffects {σ : Type} [App σ] [Bincode LogEntry] [Bincode Snapshot] [Crc32]
    [Sha256] {r : Replica σ} {wal : WAL} (hwal : r.wal = some wal)
    (hend : wal.file.pos = wal.file.bytes.length) (hwilling : wal.refusals = []) (dir : DataDir)
    (now : Nat) :
    Effect.outcome (snapshotEffects now r wal.replicaId (r.onDisk dir)) (r.onDisk dir) =
      (r.takeSnapshot now dir).2.1.onDisk (r.takeSnapshot now dir).2.2 := by
  have hdisk : r.onDisk dir = { dir with wal := some wal.file.bytes } := by
    rw [Replica.onDisk, hwal]
  have hrecorded : (recordEffect now r).complete (savedDisk now r (r.onDisk dir)) =
      { (r.captureSnapshot now).save dir with
        wal := some (wal.file.bytes ++ snapshotFrame now r) } := by
    have hfull : (snapshotFrame now r).take (snapshotFrame now r).length = snapshotFrame now r :=
      List.take_length
    rw [savedDisk_eq, hdisk]
    simp only [Effect.complete, recordEffect, hfull]
    rfl
  cases htmp : dir.walTmp with
  | some bytes =>
    have heffects : snapshotEffects now r wal.replicaId (r.onDisk dir) =
        [binEffect now r, shaEffect now r, recordEffect now r] := by
      rw [snapshotEffects, Replica.onDisk_walTmp, htmp]
      rfl
    have htmp' : ((r.captureSnapshot now).save dir).walTmp = some bytes := htmp
    have houtcome : Effect.outcome [binEffect now r, shaEffect now r, recordEffect now r]
        (r.onDisk dir) = (recordEffect now r).complete (savedDisk now r (r.onDisk dir)) := rfl
    rw [heffects, houtcome, hrecorded]
    simp only [Replica.takeSnapshot, Replica.record, hwal, Option.map_some,
      WAL.truncateAfterSnapshot, htmp', Option.isSome_some, if_true, Replica.onDisk,
      WAL.append_eq hend hwilling]
    rfl
  | none =>
    have hheader : (walHeader now wal.replicaId).take headerSize = walHeader now wal.replicaId :=
      List.take_of_length_le (length_walHeader ..).le
    have hrenamed : renamedDisk now r wal.replicaId (r.onDisk dir) =
        { (r.captureSnapshot now).save dir with
          wal := some (walHeader now wal.replicaId), walTmp := none } := by
      rw [renamedDisk, hrecorded]
      simp only [Effect.complete, renameEffect, tmpEffect, hheader]
    have htmp' : ((r.captureSnapshot now).save dir).walTmp = none := htmp
    have hcleanup : Effect.outcome (snapshotEffects now r wal.replicaId (r.onDisk dir))
        (r.onDisk dir) = cleanupOld (renamedDisk now r wal.replicaId (r.onDisk dir)) 3 := by
      rw [snapshotEffects, Replica.onDisk_walTmp, htmp]
      exact outcome_removalEffects _ _
    rw [hcleanup, hrenamed, cleanupOld_withLogs, Replica.takeSnapshot_eq hwal htmp]
    simp only [Replica.onDisk]
    rw [DataDir.mk.injEq]
    exact ⟨rfl, (((cleanupOld_wal _ 3).2).trans htmp').symm, rfl, rfl⟩

/-- A replica that kept its log can take a snapshot unless a temporary log is in the way. -/
theorem takeSnapshot_ok_iff {σ : Type} [App σ] [Bincode LogEntry] [Bincode Snapshot] [Crc32]
    [Sha256] {r : Replica σ} {wal : WAL} (hwal : r.wal = some wal) (now : Nat) (d : DataDir) :
    (r.takeSnapshot now d).1 = .ok () ↔ d.walTmp = none := by
  have htmp : ((r.captureSnapshot now).save d).walTmp = d.walTmp := rfl
  simp only [Replica.takeSnapshot, Replica.record, hwal, Option.map_some,
    WAL.truncateAfterSnapshot, htmp]
  cases d.walTmp with
  | none => simp
  | some bytes => simp

/-- Without a readable snapshot there is no recovery. -/
theorem recover_eq_error {σ : Type} [Bincode LogEntry] [Bincode Snapshot] [Crc32] [Sha256]
    {d : DataDir} {e : SnapshotError} (he : e ≠ .notFound)
    (hload : Snapshot.loadLatest d = .error e) {now : Nat} {config : Config}
    {keystore : KeyStore} :
    recover (σ := σ) now config keystore d = .error (.snapshot e) := by
  have hbase : loadBase config d = .error (.snapshot e) := by
    rw [loadBase, hload]
    cases e with
    | notFound => exact absurd rfl he
    | _ => rfl
  rw [recover, hbase]

section Files

variable {σ : Type} [App σ] [Bincode Snapshot] (now : Nat) {r : Replica σ} {d : DataDir}

/-- The snapshot file is the newest, however much of it is there. -/
theorem last_binEffect (hbelow : ∀ seq, d.bins.contains seq = true → seq < r.snapshotCounter)
    (k : Nat) : ((binEffect now r).part k d).bins.last? =
      some (r.snapshotCounter, (snapshotPayload now r).take k) :=
  OrdMap.last?_insert_of_lt _ hbelow

variable [Sha256]

/-- An incomplete snapshot file cannot be decoded. -/
theorem loadLatest_snapshotFile [StrictBincode Snapshot]
    (hbelow : ∀ seq, d.bins.contains seq = true → seq < r.snapshotCounter)
    (hshas : ∀ seq, d.shas.contains seq = true → seq < r.snapshotCounter) {k : Nat}
    (hk : k < (binEffect now r).size) :
    Snapshot.loadLatest ((binEffect now r).part k d) = .error .serialization := by
  have hsha : ((binEffect now r).part k d).shas.get? r.snapshotCounter = none := by
    cases hg : d.shas.get? r.snapshotCounter with
    | none => exact hg
    | some content =>
      exact absurd (hshas _ (OrdMap.contains_iff.mpr ⟨content, hg⟩)) (lt_irrefl _)
  have hcut : (Bincode.deserialize ((snapshotPayload now r).take k) : Option Snapshot) = none :=
    StrictBincode.deserialize_take _ k hk
  simp only [Snapshot.loadLatest, last_binEffect now hbelow, hsha, hcut]

/-- A complete snapshot file counts, with or without its checksum. -/
theorem storeHolds_snapshotFile
    (hbelow : ∀ seq, d.bins.contains seq = true → seq < r.snapshotCounter)
    (hshas : ∀ seq, d.shas.contains seq = true → seq < r.snapshotCounter) :
    StoreHolds ((binEffect now r).complete d) (some (r.captureSnapshot now)) := by
  refine ⟨?_, fun content hc => ?_⟩
  · have hlast := last_binEffect now hbelow (binEffect now r).size
    rwa [show (snapshotPayload now r).take (binEffect now r).size = snapshotPayload now r from
      List.take_length] at hlast
  · exact absurd (hshas _ (OrdMap.contains_iff.mpr ⟨content, hc⟩)) (lt_irrefl _)

/-- An incomplete checksum does not match. -/
theorem loadLatest_checksumFile
    (hbelow : ∀ seq, d.bins.contains seq = true → seq < r.snapshotCounter) {k : Nat}
    (hk : k < (shaEffect now r).size) :
    ∃ expected actual, Snapshot.loadLatest ((shaEffect now r).part k ((binEffect now r).complete d))
      = .error (.checksumMismatch expected actual) := by
  have hlast : ((shaEffect now r).part k ((binEffect now r).complete d)).bins.last? =
      some (r.snapshotCounter, snapshotPayload now r) := by
    have := last_binEffect now hbelow (binEffect now r).size
    rwa [show (snapshotPayload now r).take (binEffect now r).size = snapshotPayload now r from
      List.take_length] at this
  have hsha : ((shaEffect now r).part k ((binEffect now r).complete d)).shas.get?
      r.snapshotCounter = some ((Snapshot.checksum (snapshotPayload now r)).take k) :=
    OrdMap.get?_insert_self ..
  have hplain : PlainHex ((Snapshot.checksum (snapshotPayload now r)).take k) :=
    fun c hc => plainHex_hexDigest _ c (List.mem_of_mem_take hc)
  have hne : normalizeHex ((Snapshot.checksum (snapshotPayload now r)).take k) ≠
      Snapshot.checksum (snapshotPayload now r) := by
    rw [normalizeHex_plain hplain]
    intro he
    have hlen := congrArg List.length he
    rw [List.length_take] at hlen
    have hk' : k < (Snapshot.checksum (snapshotPayload now r)).length := hk
    omega
  refine ⟨normalizeHex ((Snapshot.checksum (snapshotPayload now r)).take k),
    Snapshot.checksum (snapshotPayload now r), ?_⟩
  simp only [Snapshot.loadLatest, hlast, hsha, if_pos hne]

/-- Removals of older snapshots leave the newest one and the log files alone and add no checksum. -/
theorem storeHolds_removals {snap : Snapshot} {seqs : List Nat} (hseqs : snap.snapshotId ∉ seqs)
    {es : List (Effect DataDir)} (hes : ∀ e ∈ es, e ∈ removalEffects seqs)
    (h : StoreHolds d (some snap)) :
    StoreHolds (Effect.outcome es d) (some snap) ∧ (Effect.outcome es d).wal = d.wal ∧
      (Effect.outcome es d).walTmp = d.walTmp ∧
      ∀ seq, (Effect.outcome es d).shas.contains seq = true → d.shas.contains seq = true := by
  induction es generalizing d with
  | nil => exact ⟨h, rfl, rfl, fun _ hk => hk⟩
  | cons e es ih =>
    have hh := List.forall_mem_cons.mp hes
    obtain ⟨seq, hin, he⟩ := List.mem_flatMap.mp hh.1
    have hne : snap.snapshotId ≠ seq := fun heq => hseqs (heq ▸ hin)
    obtain ⟨hlast, hsha⟩ := h
    have hone : StoreHolds (e.complete d) (some snap) ∧ (e.complete d).wal = d.wal ∧
        (e.complete d).walTmp = d.walTmp ∧
        ∀ k, (e.complete d).shas.contains k = true → d.shas.contains k = true := by
      simp only [List.mem_cons, List.not_mem_nil, or_false] at he
      rcases he with rfl | rfl
      · obtain ⟨hg, hmax⟩ := OrdMap.last?_eq_some hlast
        refine ⟨⟨OrdMap.last?_eq_some_iff.mpr ⟨?_, fun k hk =>
          hmax k (OrdMap.contains_of_erase hk)⟩, hsha⟩, rfl, rfl, fun _ hk => hk⟩
        exact (OrdMap.get?_erase ..).trans (by rw [if_neg hne, hg])
      · refine ⟨⟨hlast, fun content hc => hsha content ?_⟩, rfl, rfl,
          fun _ hk => OrdMap.contains_of_erase hk⟩
        have hget := OrdMap.get?_erase d.shas seq snap.snapshotId
        rw [if_neg hne] at hget
        exact hget ▸ hc
    obtain ⟨hs, hw, ht, hk⟩ := ih hh.2 hone.1
    exact ⟨hs, hw.trans hone.2.1, ht.trans hone.2.2.1, fun k hin => hone.2.2.2 k (hk k hin)⟩

end Files

end PersistHotStuff
