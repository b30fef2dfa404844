import PersistHotStuff.Durability.HashCounter
import PersistHotStuff.Handlers.HighQc

/-!
# Catching up as a join

A replica that catches up merges its blocks, its log, its high certificate and
its hash counter with those of a donor, each by a rule of its own. The result is
an upper bound of both, and it has absorbed the donor: catching up with the same
donor again leaves it where it stands.
-/

namespace PersistHotStuff

open Basis

section Standing

variable {σ : Type}

/-- The same committed hashes, block hashes, high certificate and view, whatever else differs. -/
structure SameStanding (r s : Replica σ) : Prop where
  pointers : s.pointers = r.pointers
  blocks : ∀ hash, s.blockTree.contains hash = r.blockTree.contains hash

theorem SameStanding.symm {r s : Replica σ} (h : SameStanding r s) : SameStanding s r :=
  ⟨h.pointers.symm, fun hash => (h.blocks hash).symm⟩

theorem SameStanding.trans {r s t : Replica σ} (h : SameStanding r s) (h' : SameStanding s t) :
    SameStanding r t :=
  ⟨h'.pointers.trans h.pointers, fun hash => (h'.blocks hash).trans (h.blocks hash)⟩

/-- An upper bound of what a replica has on disk and what a donor has. -/
structure Join (disk donor r : Replica σ) : Prop where
  /-- The committed hashes extend those on disk. -/
  committed : disk.committedLog.map Block.hash <+: r.committedLog.map Block.hash
  /-- The blocks are those of both; the one on disk stays under a common hash. -/
  blocks : ∀ hash, r.blockTree.get? hash =
    (disk.blockTree.get? hash).or (donor.blockTree.get? hash)
  /-- The high certificate is no older than either. -/
  ownQc : KeepsHighQc disk.highQc r.highQc
  donorQc : KeepsHighQc donor.highQc r.highQc
  counter : r.NumbersAbove

/-- A join with a filled tree is filled. -/
theorem Join.filled {disk donor r : Replica σ} (h : Join disk donor r)
    (hfilled : disk.blockTree.isEmpty = false) : r.blockTree.isEmpty = false := by
  refine OrdMap.isEmpty_eq_false_mono (fun hash hin => ?_) hfilled
  rw [OrdMap.contains, h.blocks, Option.isSome_or, Bool.or_eq_true]
  exact .inl hin

end Standing

namespace Simulation

section Sync

variable {σ : Type}

/-- The imported tree holds the blocks of both, and keeps its own under a common hash. -/
theorem get?_importBlocks (recovered donor : Replica σ) (hash : Hash) :
    (importBlocks recovered donor).blockTree.get? hash =
      (recovered.blockTree.get? hash).or (donor.blockTree.get? hash) :=
  OrdMap.get?_foldl_missing ..

/-- A log agrees with a longer one at each index when its hashes are the first of the other. -/
theorem forall_zip_iff_isPrefix {log other : List Block} (hle : log.length ≤ other.length) :
    (∀ p ∈ log.zip other, p.1.hash = p.2.hash) ↔
      log.map Block.hash <+: other.map Block.hash := by
  induction log generalizing other with
  | nil => exact iff_of_true (fun p hp => by cases hp) (List.nil_prefix ..)
  | cons block log ih =>
    cases other with
    | nil => exact absurd hle (Nat.not_succ_le_zero _)
    | cons block' other =>
      rw [List.zip_cons_cons, List.forall_mem_cons, ih (Nat.le_of_succ_le_succ hle), List.map_cons,
        List.map_cons, List.cons_prefix_cons]

/-- The donor's log is adopted when its hashes properly extend one's own. -/
theorem adoptsLog_iff (recovered donor : Replica σ) :
    adoptsLog recovered donor = true ↔
      recovered.committedLog.length < donor.committedLog.length ∧
        recovered.committedLog.map Block.hash <+: donor.committedLog.map Block.hash := by
  simp only [adoptsLog, Bool.and_eq_true, decide_eq_true_eq, List.all_eq_true, beq_iff_eq]
  exact and_congr_right fun hlt => forall_zip_iff_isPrefix hlt.le

/-- Adopting a log only extends the committed hashes. -/
theorem isPrefix_adoptLog (recovered donor : Replica σ) :
    recovered.committedLog.map Block.hash <+:
      (adoptLog recovered donor).committedLog.map Block.hash := by
  rw [adoptLog]
  split
  · next hadopts => exact ((adoptsLog_iff recovered donor).mp hadopts).2
  · exact List.prefix_rfl

/-- A certificate that is not dominated stays; a donor's that dominates takes its place. -/
theorem adoptHighQc_highQc (recovered donor : Replica σ) :
    ((adoptHighQc recovered donor).highQc = recovered.highQc ∧
        ∀ q ∈ donor.highQc, dominated recovered.highQc q = false) ∨
      ∃ q, donor.highQc = some q ∧ dominated recovered.highQc q = true ∧
        (adoptHighQc recovered donor).highQc = some q := by
  rw [adoptHighQc]
  cases donor.highQc with
  | none => exact .inl ⟨rfl, fun q hq => by cases hq⟩
  | some q =>
    cases hdom : dominated recovered.highQc q with
    | false =>
      refine .inl ⟨by simp [hdom], fun q' hq' => ?_⟩
      cases hq'
      exact hdom
    | true => exact .inr ⟨q, rfl, hdom, by simp [hdom]⟩

/-- The high certificate after a catch-up is no older than one's own or the donor's. -/
theorem keepsHighQc_adoptHighQc (recovered donor : Replica σ) :
    KeepsHighQc recovered.highQc (adoptHighQc recovered donor).highQc ∧
      KeepsHighQc donor.highQc (adoptHighQc recovered donor).highQc := by
  rcases adoptHighQc_highQc recovered donor with ⟨hsame, hkept⟩ | ⟨q, hq, hdom, hnew⟩
  · rw [hsame]
    refine ⟨keepsHighQc_refl _, fun q hq => ?_⟩
    have hnot := hkept q hq
    cases hown : recovered.highQc with
    | none =>
      rw [hown] at hnot
      cases hnot
    | some own =>
      rw [hown] at hnot
      exact ⟨own, rfl, hnot⟩
  · rw [hnew, hq]
    refine ⟨keepsHighQc_some.mpr fun high hhigh => ?_, keepsHighQc_refl _⟩
    rw [Option.mem_def.mp hhigh] at hdom
    exact Replica.newerQc_asymm hdom

/-- Unless the largest hash is in use, the raised counter is above every block. -/
theorem numbersAbove_raiseNextHash {r : Replica σ}
    (hsmall : ∀ hash, r.blockTree.contains hash = true → hash < u64Max) :
    (raiseNextHash r).NumbersAbove := by
  rw [raiseNextHash]
  cases hlast : r.blockTree.last? with
  | none =>
    intro hash hhash
    have hnone := OrdMap.last?_eq_none.mp hlast hash
    rw [hnone] at hhash
    cases hhash
  | some p =>
    obtain ⟨maxHash, block⟩ := p
    obtain ⟨hget, hmax⟩ := OrdMap.last?_eq_some hlast
    have hroom : maxHash < u64Max := hsmall maxHash (OrdMap.contains_iff.mpr ⟨block, hget⟩)
    have hnext : wrappingAdd maxHash 1 = maxHash + 1 := Nat.mod_eq_of_lt (Nat.succ_lt_succ hroom)
    simp only
    split
    · intro hash hhash
      show hash < wrappingAdd maxHash 1
      rw [hnext]
      exact Nat.lt_succ_of_le (hmax hash hhash)
    · next hbelow => exact fun hash hhash => lt_of_le_of_lt (hmax hash hhash) (not_le.mp hbelow)

/-- Catching up joins what is on disk with what the donor has. -/
theorem join_syncFrom {disk donor : Replica σ}
    (hsmall : ∀ hash, disk.blockTree.contains hash = true ∨
      donor.blockTree.contains hash = true → hash < u64Max) :
    Join disk donor (syncFrom disk donor) := by
  have htree : (syncFrom disk donor).blockTree = (importBlocks disk donor).blockTree := by
    rw [syncFrom_eq]
  obtain ⟨hown, hdonor⟩ := keepsHighQc_adoptHighQc disk donor
  refine ⟨?_, fun hash => ?_, ?_, ?_, ?_⟩
  · rw [syncFrom_eq]
    exact isPrefix_adoptLog disk donor
  · rw [htree]
    exact get?_importBlocks disk donor hash
  · rw [syncFrom_eq]
    exact hown
  · rw [syncFrom_eq]
    exact hdonor
  · rw [syncFrom] at htree ⊢
    refine numbersAbove_raiseNextHash fun hash hhash => hsmall hash ?_
    have hsame : (raiseNextHash (adoptHighQc (adoptLog (importBlocks disk donor) donor)
        donor)).blockTree =
        (adoptHighQc (adoptLog (importBlocks disk donor) donor) donor).blockTree := by
      rw [raiseNextHash]
      split
      · rfl
      · split <;> rfl
    rw [← hsame, htree, OrdMap.contains, get?_importBlocks, Option.isSome_or,
      Bool.or_eq_true] at hhash
    exact hhash

/-- A replica that has nothing left to take over from a donor. -/
structure Absorbed (donor r : Replica σ) : Prop where
  blocks : ∀ hash, donor.blockTree.contains hash = true → r.blockTree.contains hash = true
  log : adoptsLog r donor = false
  highQc : ∀ q ∈ donor.highQc, dominated r.highQc q = false

/-- Catching up absorbs the donor. -/
theorem absorbed_syncFrom (disk donor : Replica σ) : Absorbed donor (syncFrom disk donor) := by
  refine ⟨fun hash hhash => ?_, ?_, ?_⟩
  · rw [syncFrom_eq]
    show (importBlocks disk donor).blockTree.contains hash = true
    rw [OrdMap.contains, get?_importBlocks, Option.isSome_or, Bool.or_eq_true]
    exact .inr hhash
  · rw [← Bool.not_eq_true, adoptsLog_iff, syncFrom_eq]
    rintro ⟨hlt, hpre⟩
    simp only [adoptLog] at hlt hpre
    split at hlt
    · exact absurd hlt (lt_irrefl _)
    · next hkept =>
      rw [if_neg hkept] at hpre
      exact hkept ((adoptsLog_iff disk donor).mpr ⟨hlt, hpre⟩)
  · rw [syncFrom_eq]
    show ∀ q ∈ donor.highQc, dominated (adoptHighQc disk donor).highQc q = false
    rcases adoptHighQc_highQc disk donor with ⟨hsame, hkept⟩ | ⟨q, hq, -, hnew⟩
    · rw [hsame]
      exact hkept
    · rw [hnew, hq]
      rintro q' hq'
      cases hq'
      exact Replica.newerQc_irrefl q

/-- Whether a donor is absorbed depends on where the replica stands. -/
theorem Absorbed.of_sameStanding {donor r s : Replica σ} (h : Absorbed donor r)
    (hs : SameStanding r s) : Absorbed donor s := by
  have hcommitted : s.committedLog.map Block.hash = r.committedLog.map Block.hash :=
    congrArg Pointers.committed hs.pointers
  have hpointer : s.highQc.map QuorumCert.pointer = r.highQc.map QuorumCert.pointer :=
    congrArg Pointers.highQc hs.pointers
  refine ⟨fun hash hhash => (hs.blocks hash).trans (h.blocks hash hhash), ?_, fun q hq => ?_⟩
  · have hlen := congrArg List.length hcommitted
    rw [List.length_map, List.length_map] at hlen
    rw [← Bool.not_eq_true, adoptsLog_iff, hcommitted, hlen, ← adoptsLog_iff, h.log]
    exact Bool.false_ne_true
  · have hnot := h.highQc q hq
    cases hr : r.highQc with
    | none =>
      rw [hr] at hnot
      cases hnot
    | some own =>
      rw [hr, Option.map_some] at hpointer
      obtain ⟨own', hown', hp⟩ := Option.map_eq_some_iff.mp hpointer
      obtain ⟨-, hview, hepoch⟩ : own'.blockHash = own.blockHash ∧ own'.view = own.view ∧
          own'.epoch = own.epoch := by
        simpa only [QuorumCert.pointer, Prod.mk.injEq] using hp
      rw [hr] at hnot
      rw [hown']
      simpa only [dominated, Replica.newerQc, hview, hepoch] using hnot

/-- Catching up with a donor that is absorbed leaves the replica where it stands. -/
theorem Absorbed.syncFrom {donor r : Replica σ} (h : Absorbed donor r) :
    SameStanding r (syncFrom r donor) := by
  have hlog : adoptLog r donor = r := by rw [adoptLog, h.log, if_neg Bool.false_ne_true]
  have hqc : (adoptHighQc r donor).highQc = r.highQc := by
    rcases adoptHighQc_highQc r donor with ⟨hsame, -⟩ | ⟨q, hq, hdom, -⟩
    · exact hsame
    · rw [h.highQc q hq] at hdom
      cases hdom
  refine ⟨?_, fun hash => ?_⟩
  · rw [syncFrom_eq, hlog, hqc]
    rfl
  · rw [syncFrom_eq]
    show (importBlocks r donor).blockTree.contains hash = r.blockTree.contains hash
    rw [OrdMap.contains, get?_importBlocks, Option.isSome_or]
    exact Bool.or_eq_left_iff_imp.mpr (h.blocks hash)

end Sync

section Views

/-- Among some views one is the latest. -/
theorem exists_maxView {views : List Nat} (hne : views ≠ []) :
    ∃ top, maxView views = some top ∧ top ∈ views ∧ ∀ view ∈ views, view ≤ top := by
  cases hmax : maxView views with
  | none => exact absurd (List.max?_eq_none_iff.mp hmax) hne
  | some top => exact ⟨top, rfl, List.max?_eq_some_iff.mp hmax⟩

variable {σ : Type} [Bincode LogEntry] [Crc32]

/-- Catching up with a view ends in it, or stays in a later one. -/
theorem currentView_catchUpView {now target fuel : Nat} {r : Replica σ}
    (hfuel : target ≤ r.currentView + fuel) (hmax : target ≤ u64Max) :
    (catchUpView now target fuel r).currentView = max r.currentView target := by
  induction fuel generalizing r with
  | zero => exact (max_eq_left hfuel).symm
  | succ fuel ih =>
    rw [catchUpView]
    split
    · next hlt =>
      have hnext : (r.advanceViewWithReason now .timeout).currentView = r.currentView + 1 :=
        min_eq_left (hlt.trans_le hmax)
      rw [ih (by rw [hnext]; omega), hnext]
      omega
    · next hge => exact (max_eq_left (not_lt.mp hge)).symm

/-- A view that is not behind is not changed. -/
theorem catchUpView_of_le {now target fuel : Nat} {r : Replica σ} (h : target ≤ r.currentView) :
    catchUpView now target fuel r = r := by
  cases fuel with
  | zero => rfl
  | succ fuel => rw [catchUpView, if_neg (not_lt.mpr h)]

variable {others : List (Replica σ)} {donor : Replica σ}

/-- A rejoin catches up with the donor and then with the latest view of the others. -/
theorem synced_eq (hdonor : others.head? = some donor) (now : Nat) (r : Replica σ) :
    ∃ top ∈ others.map Replica.currentView, (∀ s ∈ others, s.currentView ≤ top) ∧
      synced now others r =
        catchUpView now top (top - (syncFrom r donor).currentView) (syncFrom r donor) := by
  have hne : others.map Replica.currentView ≠ [] := by
    rintro hnil
    rw [List.map_eq_nil_iff.mp hnil] at hdonor
    cases hdonor
  obtain ⟨top, hmax, hmem, htop⟩ := exists_maxView hne
  refine ⟨top, hmem, List.forall_mem_map.mp htop, ?_⟩
  simp only [synced, hdonor, hmax, Option.getD_some]

/-- A rejoin joins what is on disk with what the donor has. -/
theorem join_synced (hdonor : others.head? = some donor) (now : Nat) {disk : Replica σ}
    (hsmall : ∀ hash, disk.blockTree.contains hash = true ∨
      donor.blockTree.contains hash = true → hash < u64Max) :
    Join disk donor (synced now others disk) := by
  obtain ⟨top, -, -, heq⟩ := synced_eq hdonor now disk
  rw [heq]
  refine catchUpView_preserves (I := Join disk donor) (fun r h => ?_) top (join_syncFrom hsmall)
  exact ⟨h.committed, h.blocks, h.ownQc, h.donorQc, h.counter⟩

/-- After a rejoin the donor is absorbed. -/
theorem absorbed_synced (hdonor : others.head? = some donor) (now : Nat) (disk : Replica σ) :
    Absorbed donor (synced now others disk) := by
  obtain ⟨top, -, -, heq⟩ := synced_eq hdonor now disk
  rw [heq]
  refine catchUpView_preserves (I := Absorbed donor) (fun r h => ?_) top
    (absorbed_syncFrom disk donor)
  exact ⟨h.blocks, h.log, h.highQc⟩

/-- After a rejoin no other replica is in a later view. -/
theorem currentView_le_synced (hdonor : others.head? = some donor)
    (hviews : ∀ s ∈ others, s.currentView ≤ u64Max) (now : Nat) (disk : Replica σ) :
    ∀ s ∈ others, s.currentView ≤ (synced now others disk).currentView := by
  obtain ⟨top, hmem, htop, heq⟩ := synced_eq hdonor now disk
  obtain ⟨last, hlast, rfl⟩ := List.mem_map.mp hmem
  intro s hs
  rw [heq, currentView_catchUpView (by omega) (hviews last hlast)]
  exact (htop s hs).trans (le_max_right ..)

/-- A replica that has absorbed the donor and is in no earlier view than the others stays where it
stands. -/
theorem sameStanding_synced (hdonor : others.head? = some donor) {r : Replica σ}
    (h : Absorbed donor r) (hviews : ∀ s ∈ others, s.currentView ≤ r.currentView) (now : Nat) :
    SameStanding r (synced now others r) := by
  obtain ⟨top, hmem, -, heq⟩ := synced_eq hdonor now r
  obtain ⟨last, hlast, rfl⟩ := List.mem_map.mp hmem
  have hview : (syncFrom r donor).currentView = r.currentView := by rw [syncFrom_eq]
  rw [heq, catchUpView_of_le (by rw [hview]; exact hviews last hlast)]
  exact h.syncFrom

end Views

end Simulation

end PersistHotStuff
