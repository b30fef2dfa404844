import PersistHotStuff.Durability.SnapshotNames
import PersistHotStuff.Durability.Store
import PersistHotStuff.Source.Sample

/-!
# The snapshot files of many replicas

A directory of named files holds for each replica the numbered snapshots that
`DataDir` lists. Saving, loading and cleaning up by name do for one replica what
they do by number, and nothing for the others, in whatever order the files are
listed.
-/

namespace PersistHotStuff

open Basis

/-- Cleaning up removes no file that is loaded. -/
theorem loadLatest_cleanupOld [Bincode Snapshot] [Sha256] (dir : DataDir) {keep : Nat}
    (hkeep : 0 < keep) : Snapshot.loadLatest (cleanupOld dir keep) = Snapshot.loadLatest dir := by
  cases hlast : dir.bins.last? with
  | none =>
    have hnone : (cleanupOld dir keep).bins.last? = none := by
      rw [OrdMap.last?_eq_none] at hlast ⊢
      intro seq
      rw [← Bool.not_eq_true]
      intro hseq
      have hold := contains_cleanupOld hseq
      rw [hlast seq] at hold
      cases hold
    simp only [Snapshot.loadLatest, hlast, hnone]
  | some newest =>
    obtain ⟨seq, payload⟩ := newest
    have hkept := last_not_expired hlast hkeep
    obtain ⟨hget, hmax⟩ := OrdMap.last?_eq_some hlast
    have hsame : (cleanupOld dir keep).bins.last? = some (seq, payload) := by
      refine OrdMap.last?_eq_some_iff.mpr ⟨?_, fun k hk => hmax k (contains_cleanupOld hk)⟩
      rw [cleanupOld_bins, if_neg hkept, hget]
    simp only [Snapshot.loadLatest, hlast, hsame, cleanupOld_shas, if_neg hkept]

namespace Directory

variable [Bincode Snapshot] [Sha256]

/-- The content of a checksum sidecar. -/
def sidecar (payload : Bytes) : Bytes :=
  (String.ofList (Snapshot.checksum payload)).toUTF8.data.toList

/-- A directory holds for a replica the numbered snapshots, each with its checksum, and nothing
else that could be taken for one. -/
structure Holds (replicaId : ReplicaId) (dir : Directory) (numbered : DataDir) : Prop where
  names : ∀ name seq, dir.contains name = true → snapshotSeq replicaId name = some seq →
    name = snapshotName replicaId seq
  bins : ∀ seq, dir.get? (snapshotName replicaId seq) = numbered.bins.get? seq
  range : ∀ seq, numbered.bins.contains seq = true → seq ≤ u64Max
  sidecars : ∀ seq payload, numbered.bins.get? seq = some payload →
    dir.get? (sidecarName replicaId seq) = some (sidecar payload) ∧
      numbered.shas.get? seq = some (Snapshot.checksum payload)

variable {replicaId : ReplicaId} {dir : Directory} {numbered : DataDir}

omit [Bincode Snapshot] in
/-- The numbers found in a listing are those of the snapshots. -/
theorem Holds.numbers (h : Holds replicaId dir numbered) {listing : List String}
    (hlisting : listing.Perm dir.keys) :
    (listing.filterMap (snapshotSeq replicaId)).Perm numbered.bins.keys := by
  have hmem : ∀ name, name ∈ listing ↔ dir.contains name = true :=
    fun name => hlisting.mem_iff.trans OrdMap.mem_keys
  have hcontains : ∀ seq, dir.contains (snapshotName replicaId seq) = true ↔
      numbered.bins.contains seq = true := by
    intro seq
    rw [OrdMap.contains_iff, OrdMap.contains_iff, h.bins]
  have hsame : listing.filterMap (snapshotSeq replicaId) = listing.filterMap fun name =>
      if dir.contains name = true then snapshotSeq replicaId name else none :=
    List.filterMap_congr fun name hname => (if_pos ((hmem name).mp hname)).symm
  -- two files of the directory with one number are one file
  have hnodup : (listing.filterMap (snapshotSeq replicaId)).Nodup := by
    have hlist : listing.Nodup := hlisting.nodup_iff.mpr (dir.keys_pairwise.imp fun hlt => hlt.ne)
    rw [hsame]
    refine hlist.filterMap fun name name' seq hseq hseq' => ?_
    rw [Option.mem_def] at hseq hseq'
    split at hseq
    · next hin =>
      split at hseq'
      · next hin' => exact (h.names name seq hin hseq).trans (h.names name' seq hin' hseq').symm
      · cases hseq'
    · cases hseq
  refine (List.perm_ext_iff_of_nodup hnodup
    (numbered.bins.keys_pairwise.imp fun hlt => hlt.ne)).mpr fun seq => ?_
  rw [OrdMap.mem_keys, ← hcontains, List.mem_filterMap]
  constructor
  · rintro ⟨name, hname, hseq⟩
    have hin := (hmem name).mp hname
    rwa [← h.names name seq hin hseq]
  · intro hin
    refine ⟨_, (hmem _).mpr hin, (snapshotSeq_snapshotName ?_).mpr ⟨rfl, rfl⟩⟩
    exact h.range seq ((hcontains seq).mp hin)

omit [Bincode Snapshot] in
/-- What is found in a listing are the numbered snapshots in order. -/
theorem Holds.candidates (h : Holds replicaId dir numbered) {listing : List String}
    (hlisting : listing.Perm dir.keys) :
    candidates replicaId listing =
      numbered.bins.keys.map fun seq => (seq, snapshotName replicaId seq) := by
  have : Std.Total fun a b : Nat × String => a.1 ≤ b.1 := ⟨fun a b => le_total a.1 b.1⟩
  have : IsTrans (Nat × String) fun a b => a.1 ≤ b.1 := ⟨fun _ _ _ => le_trans⟩
  have hsorted := List.pairwise_insertionSort (fun a b : Nat × String => a.1 ≤ b.1)
    (listing.filterMap fun name => (snapshotSeq replicaId name).map fun seq => (seq, name))
  have hperm := List.perm_insertionSort (fun a b : Nat × String => a.1 ≤ b.1)
    (listing.filterMap fun name => (snapshotSeq replicaId name).map fun seq => (seq, name))
  have hfound : Directory.candidates replicaId listing = List.insertionSort
      (fun a b : Nat × String => a.1 ≤ b.1)
      (listing.filterMap fun name =>
        (snapshotSeq replicaId name).map fun seq => (seq, name)) := rfl
  rw [← hfound] at hsorted hperm
  generalize Directory.candidates replicaId listing = found at hsorted hperm
  have hfirsts : found.map Prod.fst = numbered.bins.keys := by
    have hnumbers : (found.map Prod.fst).Perm numbered.bins.keys := by
      refine (hperm.map Prod.fst).trans (.trans (.of_eq ?_) (h.numbers hlisting))
      rw [List.map_filterMap]
      refine List.filterMap_congr fun name _ => ?_
      rw [Option.map_map]
      exact Option.map_id'
    exact hnumbers.eq_of_pairwise (fun _ _ _ _ => Nat.le_antisymm) (List.pairwise_map.mpr hsorted)
      (numbered.bins.keys_pairwise.imp fun hlt => hlt.le)
  rw [← hfirsts, List.map_map]
  refine (List.map_id found).symm.trans (List.map_congr_left fun c hc => Prod.ext rfl ?_)
  obtain ⟨name, hname, hnumber⟩ := List.mem_filterMap.mp (hperm.mem_iff.mp hc)
  obtain ⟨seq, hseq, rfl⟩ := Option.map_eq_some_iff.mp hnumber
  exact h.names name seq (OrdMap.mem_keys.mp (hlisting.mem_iff.mp hname)) hseq

omit [Bincode Snapshot] [Sha256] in
/-- A text is read as it was written. -/
theorem readToString_toUTF8 (text : List Char) :
    readToString (String.ofList text).toUTF8.data.toList = .ok text := by
  have hbytes : (⟨(String.ofList text).toUTF8.data.toList.toArray⟩ : ByteArray) =
      (String.ofList text).toUTF8 := by rw [Array.toArray_toList]
  have hread : String.fromUTF8? (String.ofList text).toUTF8 = some (String.ofList text) :=
    dif_pos (String.ofList text).isValidUTF8
  simp only [readToString, hbytes, hread, String.toList_ofList]

/-- Loading by name loads what loading by number does. -/
theorem Holds.loadLatest (h : Holds replicaId dir numbered) {listing : List String}
    (hlisting : listing.Perm dir.keys) :
    dir.loadLatest replicaId listing = Snapshot.loadLatest numbered := by
  have hlast : (Directory.candidates replicaId listing).getLast? =
      numbered.bins.last?.map fun p => (p.1, snapshotName replicaId p.1) := by
    rw [h.candidates hlisting, OrdMap.keys, List.map_map, List.getLast?_map]
    rfl
  simp only [Directory.loadLatest, Snapshot.loadLatest, hlast]
  cases hnewest : numbered.bins.last? with
  | none => rfl
  | some newest =>
    obtain ⟨seq, payload⟩ := newest
    obtain ⟨hget, -⟩ := OrdMap.last?_eq_some hnewest
    obtain ⟨hsidecar, hsha⟩ := h.sidecars seq payload hget
    have hplain : normalizeHex (Snapshot.checksum payload) = Snapshot.checksum payload :=
      normalizeHex_plain (plainHex_hexDigest _)
    cases hload : (Bincode.deserialize payload : Option Snapshot) <;>
      simp only [Option.map_some, h.bins, hget, withExtension_snapshotName, hsidecar, hsha, sidecar,
        readToString_toUTF8, hplain, ne_eq, not_true_eq_false, if_false, hload]

omit [Bincode Snapshot] [Sha256] in
/-- The files of some snapshots are erased. -/
theorem get?_foldl_erase (replicaId : ReplicaId) (seqs : List Nat) (dir : Directory)
    (name : String) :
    (seqs.foldl (fun (dir : Directory) seq =>
        (dir.erase (snapshotName replicaId seq)).erase (sidecarName replicaId seq)) dir).get? name =
      if ∃ seq ∈ seqs, name = snapshotName replicaId seq ∨ name = sidecarName replicaId seq then
        none
      else dir.get? name := by
  induction seqs generalizing dir with
  | nil => simp
  | cons seq seqs ih =>
    rw [List.foldl_cons, ih, OrdMap.get?_erase, OrdMap.get?_erase]
    simp only [List.exists_mem_cons_iff]
    by_cases hlater : ∃ seq ∈ seqs,
        name = snapshotName replicaId seq ∨ name = sidecarName replicaId seq
    · rw [if_pos hlater, if_pos (.inr hlater)]
    · by_cases hbin : name = snapshotName replicaId seq
      · simp [hbin]
      · by_cases hsha : name = sidecarName replicaId seq
        · simp [hsha]
        · simp [hbin, hsha, hlater]

omit [Bincode Snapshot] in
/-- Cleaning up removes the expired files of the replica, and no others. -/
theorem Holds.get?_cleanupOld (h : Holds replicaId dir numbered) {listing : List String}
    (hlisting : listing.Perm dir.keys) (keep : Nat) (name : String) :
    (dir.cleanupOld replicaId listing keep).get? name =
      if ∃ seq ∈ expired numbered keep,
          name = snapshotName replicaId seq ∨ name = sidecarName replicaId seq then none
      else dir.get? name := by
  rw [← get?_foldl_erase]
  simp only [Directory.cleanupOld, h.candidates hlisting, expired, List.length_map,
    ← List.map_take, List.foldl_map, withExtension_snapshotName, OrdMap.length_keys]

omit [Bincode Snapshot] in
/-- Cleaning up by name cleans up by number. -/
theorem Holds.cleanupOld (h : Holds replicaId dir numbered) {listing : List String}
    (hlisting : listing.Perm dir.keys) (keep : Nat) :
    Holds replicaId (dir.cleanupOld replicaId listing keep)
      (PersistHotStuff.cleanupOld numbered keep) := by
  have hget := h.get?_cleanupOld hlisting keep
  have hbin : ∀ seq, (∃ old ∈ expired numbered keep, snapshotName replicaId seq =
      snapshotName replicaId old ∨ snapshotName replicaId seq = sidecarName replicaId old) ↔
      seq ∈ expired numbered keep := by
    intro seq
    refine ⟨?_, fun hold => ⟨seq, hold, .inl rfl⟩⟩
    rintro ⟨old, hold, heq | heq⟩
    · exact (snapshotName_injective heq).2 ▸ hold
    · exact absurd heq.symm (sidecarName_ne_snapshotName _ _ _ _)
  have hsha : ∀ seq, seq ∉ expired numbered keep → ¬ ∃ old ∈ expired numbered keep,
      sidecarName replicaId seq = snapshotName replicaId old ∨
        sidecarName replicaId seq = sidecarName replicaId old := by
    rintro seq hseq ⟨old, hold, heq | heq⟩
    · exact sidecarName_ne_snapshotName _ _ _ _ heq
    · exact hseq ((sidecarName_injective heq).2 ▸ hold)
  refine ⟨fun name seq hname hseq => h.names name seq ?_ hseq, fun seq => ?_,
    fun seq hseq => h.range seq (contains_cleanupOld hseq), fun seq payload hseq => ?_⟩
  · obtain ⟨content, hcontent⟩ := OrdMap.contains_iff.mp hname
    rw [hget] at hcontent
    split at hcontent
    · cases hcontent
    · exact OrdMap.contains_iff.mpr ⟨content, hcontent⟩
  · rw [hget, cleanupOld_bins, h.bins]
    exact if_congr (hbin seq) rfl rfl
  · rw [cleanupOld_bins] at hseq
    split at hseq
    · cases hseq
    · next hkept =>
      rw [hget, if_neg (hsha seq hkept), cleanupOld_shas, if_neg hkept]
      exact h.sidecars seq payload hseq

omit [Bincode Snapshot] in
/-- Cleaning up for one replica leaves the files of the others alone. -/
theorem Holds.cleanupOld_other (h : Holds replicaId dir numbered) {listing : List String}
    (hlisting : listing.Perm dir.keys) (keep : Nat) {other : ReplicaId} (hne : other ≠ replicaId)
    {numbered' : DataDir} (h' : Holds other dir numbered') :
    Holds other (dir.cleanupOld replicaId listing keep) numbered' := by
  have hget := h.get?_cleanupOld hlisting keep
  have hbin : ∀ seq, (dir.cleanupOld replicaId listing keep).get? (snapshotName other seq) =
      dir.get? (snapshotName other seq) := by
    intro seq
    rw [hget]
    refine if_neg ?_
    rintro ⟨old, -, heq | heq⟩
    · exact hne (snapshotName_injective heq).1
    · exact sidecarName_ne_snapshotName _ _ _ _ heq.symm
  have hsha : ∀ seq, (dir.cleanupOld replicaId listing keep).get? (sidecarName other seq) =
      dir.get? (sidecarName other seq) := by
    intro seq
    rw [hget]
    refine if_neg ?_
    rintro ⟨old, -, heq | heq⟩
    · exact sidecarName_ne_snapshotName _ _ _ _ heq
    · exact hne (sidecarName_injective heq).1
  refine ⟨fun name seq hname hseq => h'.names name seq ?_ hseq,
    fun seq => (hbin seq).trans (h'.bins seq), h'.range, fun seq payload hseq => ?_⟩
  · obtain ⟨content, hcontent⟩ := OrdMap.contains_iff.mp hname
    rw [hget] at hcontent
    split at hcontent
    · cases hcontent
    · exact OrdMap.contains_iff.mpr ⟨content, hcontent⟩
  · rw [hsha]
    exact h'.sidecars seq payload hseq

/-- What a directory has under a name after a save. -/
theorem get?_save (snap : Snapshot) (dir : Directory) (name : String) :
    (dir.save snap).get? name =
      if name = sidecarName snap.replicaId snap.snapshotId then
        some (sidecar (Bincode.serialize snap))
      else if name = snapshotName snap.replicaId snap.snapshotId then
        some (Bincode.serialize snap)
      else dir.get? name := by
  simp only [Directory.save, withExtension_snapshotName, OrdMap.get?_insert, sidecar]

/-- Whatever has a name after a save had it before or is one of the two files written. -/
theorem contains_save {snap : Snapshot} {name : String}
    (h : (dir.save snap).contains name = true) :
    name = sidecarName snap.replicaId snap.snapshotId ∨
      name = snapshotName snap.replicaId snap.snapshotId ∨ dir.contains name = true := by
  obtain ⟨content, hcontent⟩ := OrdMap.contains_iff.mp h
  rw [get?_save] at hcontent
  split at hcontent
  · next heq => exact .inl heq
  · split at hcontent
    · next heq => exact .inr (.inl heq)
    · exact .inr (.inr (OrdMap.contains_iff.mpr ⟨content, hcontent⟩))

/-- Saving by name saves by number. -/
theorem Holds.save {snap : Snapshot} (h : Holds snap.replicaId dir numbered)
    (hrange : snap.snapshotId ≤ u64Max) :
    Holds snap.replicaId (dir.save snap) (snap.save numbered) := by
  have hbin : ∀ seq, (dir.save snap).get? (snapshotName snap.replicaId seq) =
      (snap.save numbered).bins.get? seq := by
    intro seq
    rw [get?_save, if_neg fun heq => sidecarName_ne_snapshotName _ _ _ _ heq.symm, Snapshot.save,
      OrdMap.get?_insert, h.bins]
    exact if_congr ⟨fun heq => (snapshotName_injective heq).2, fun heq => heq ▸ rfl⟩ rfl rfl
  refine ⟨fun name seq hname hseq => ?_, hbin, fun seq hseq => ?_, fun seq payload hseq => ?_⟩
  · rcases contains_save hname with rfl | rfl | hold
    · rw [snapshotSeq_sidecarName] at hseq
      cases hseq
    · rw [((snapshotSeq_snapshotName hrange).mp hseq).2]
    · exact h.names name seq hold hseq
  · simp only [Snapshot.save, OrdMap.contains_insert, Bool.or_eq_true, decide_eq_true_eq] at hseq
    rcases hseq with rfl | hseq
    · exact hrange
    · exact h.range seq hseq
  · simp only [Snapshot.save, OrdMap.get?_insert] at hseq ⊢
    rw [get?_save]
    split at hseq
    · next heq =>
      cases hseq
      rw [heq, if_pos rfl, if_pos rfl]
      exact ⟨rfl, rfl⟩
    · next hne =>
      rw [if_neg fun heq => hne (sidecarName_injective heq).2, if_neg hne,
        if_neg (sidecarName_ne_snapshotName _ _ _ _)]
      exact h.sidecars seq payload hseq

/-- Saving a snapshot of one replica leaves the files of the others alone. -/
theorem Holds.save_other {snap : Snapshot} {other : ReplicaId} (hne : other ≠ snap.replicaId)
    (h : Holds other dir numbered) (hrange : snap.snapshotId ≤ u64Max) :
    Holds other (dir.save snap) numbered := by
  refine ⟨fun name seq hname hseq => ?_, fun seq => ?_, h.range, fun seq payload hseq => ?_⟩
  · rcases contains_save hname with rfl | rfl | hold
    · rw [snapshotSeq_sidecarName] at hseq
      cases hseq
    · exact absurd ((snapshotSeq_snapshotName hrange).mp hseq).1 hne
    · exact h.names name seq hold hseq
  · rw [get?_save, if_neg fun heq => sidecarName_ne_snapshotName _ _ _ _ heq.symm,
      if_neg fun heq => hne (snapshotName_injective heq).1]
    exact h.bins seq
  · rw [get?_save, if_neg fun heq => hne (sidecarName_injective heq).1,
      if_neg (sidecarName_ne_snapshotName _ _ _ _)]
    exact h.sidecars seq payload hseq

/-- A directory in which snapshots of any replicas were saved and cleaned up, beside files whose
names do not have the form of a snapshot's. -/
inductive Written : Directory → Prop
  | start {dir : Directory}
      (hforeign : ∀ name, dir.contains name = true → ∀ (replicaId : ReplicaId) (text : List Char),
        name.toList ≠ snapshotPrefix replicaId ++ text ++ ".bin".toList) : Written dir
  | save {dir : Directory} (snap : Snapshot) (hrange : snap.snapshotId ≤ u64Max) :
      Written dir → Written (dir.save snap)
  | cleanupOld {dir : Directory} (replicaId : ReplicaId) (listing : List String) (keep : Nat)
      (hlisting : listing.Perm dir.keys) :
      Written dir → Written (dir.cleanupOld replicaId listing keep)

/-- Such a directory holds numbered snapshots for every replica. -/
theorem Written.holds (h : Written dir) (replicaId : ReplicaId) :
    ∃ numbered, Holds replicaId dir numbered := by
  induction h generalizing replicaId with
  | start hforeign =>
    refine ⟨DataDir.empty, fun name seq hname hseq => ?_, fun seq => ?_, fun seq hseq => ?_,
      fun seq payload hseq => ?_⟩
    · obtain ⟨text, htext, -⟩ := snapshotSeq_eq_some_iff.mp hseq
      exact absurd htext (hforeign name hname replicaId text)
    · refine Option.eq_none_iff_forall_ne_some.mpr fun content hcontent => ?_
      refine hforeign _ (OrdMap.contains_iff.mpr ⟨content, hcontent⟩) replicaId
        (Nat.toDigits 10 seq) ?_
      rw [snapshotName, String.toList_ofList]
    · cases hseq
    · cases hseq
  | save snap hrange _ ih =>
    obtain ⟨numbered, hnumbered⟩ := ih replicaId
    by_cases heq : replicaId = snap.replicaId
    · subst heq
      exact ⟨_, hnumbered.save hrange⟩
    · exact ⟨_, hnumbered.save_other heq hrange⟩
  | cleanupOld id listing keep hlisting _ ih =>
    obtain ⟨numbered, hnumbered⟩ := ih replicaId
    by_cases heq : replicaId = id
    · subst heq
      exact ⟨_, hnumbered.cleanupOld hlisting keep⟩
    · obtain ⟨own, hown⟩ := ih id
      exact ⟨_, hown.cleanupOld_other hlisting keep heq hnumbered⟩

omit [Bincode Snapshot] in
/-- The numbers of a replica before and after a cleanup: those that remain are the highest ones, as
many as are to be kept or all there are. -/
theorem Holds.remaining (h : Holds replicaId dir numbered) {listing : List String}
    (hlisting : listing.Perm dir.keys) (keep : Nat) :
    ∃ seqs kept : Finset Nat,
      (∀ seq, seq ∈ seqs ↔ dir.contains (snapshotName replicaId seq) = true) ∧
      (∀ seq, seq ∈ kept ↔ (dir.cleanupOld replicaId listing keep).contains
        (snapshotName replicaId seq) = true) ∧
      kept ⊆ seqs ∧ kept.card = min keep seqs.card ∧
      ∀ old ∈ seqs, old ∉ kept → ∀ new ∈ kept, old < new := by
  have hclean := h.cleanupOld hlisting keep
  have hnodup : numbered.bins.keys.Nodup := numbered.bins.keys_pairwise.imp fun hlt => hlt.ne
  have hsplit := List.take_append_drop (numbered.bins.length - keep) numbered.bins.keys
  have hdisjoint : ∀ seq ∈ expired numbered keep,
      seq ∉ numbered.bins.keys.drop (numbered.bins.length - keep) := by
    rw [← hsplit] at hnodup
    exact fun seq hold hnew => (List.nodup_append.mp hnodup).2.2 seq hold seq hnew rfl
  have hseqs : ∀ seq, seq ∈ numbered.bins.keys.toFinset ↔
      dir.contains (snapshotName replicaId seq) = true := by
    intro seq
    rw [List.mem_toFinset, OrdMap.mem_keys, OrdMap.contains_iff, OrdMap.contains_iff, h.bins]
  have hkept : ∀ seq, seq ∈ (numbered.bins.keys.drop (numbered.bins.length - keep)).toFinset ↔
      (dir.cleanupOld replicaId listing keep).contains (snapshotName replicaId seq) = true := by
    intro seq
    rw [List.mem_toFinset, OrdMap.contains_iff, hclean.bins, cleanupOld_bins]
    by_cases hold : seq ∈ expired numbered keep
    · simp [hold, hdisjoint seq hold]
    · have hmem : seq ∈ numbered.bins.keys ↔ seq ∈ expired numbered keep ∨
          seq ∈ numbered.bins.keys.drop (numbered.bins.length - keep) := by
        rw [expired, ← List.mem_append, hsplit]
      rw [if_neg hold, ← OrdMap.contains_iff, ← OrdMap.mem_keys, hmem]
      exact (or_iff_right hold).symm
  refine ⟨_, _, hseqs, hkept, fun seq hseq => ?_, ?_, fun old hold hnot new hnew => ?_⟩
  · rw [List.mem_toFinset] at hseq ⊢
    exact List.mem_of_mem_drop hseq
  · rw [List.toFinset_card_of_nodup hnodup, List.toFinset_card_of_nodup (hnodup.sublist
      (List.drop_sublist _ _)), List.length_drop, OrdMap.length_keys]
    omega
  · rw [List.mem_toFinset] at hold hnot hnew
    have hpw := numbered.bins.keys_pairwise
    rw [← hsplit] at hpw hold
    exact (List.pairwise_append.mp hpw).2.2 old ((List.mem_append.mp hold).resolve_right hnot) new
      hnew

/-- Cleaning up preserves recovery: after it every replica, the one cleaned up for included, loads
what it would have loaded before, in whatever order the files are listed; of the snapshots of the
replica the highest remain, as many as are to be kept or all there are, each with its content and
its checksum. -/
theorem loadLatest_after_cleanupOld (h : Written dir) (replicaId : ReplicaId) {keep : Nat}
    (hkeep : 1 ≤ keep) {listing : List String} (hlisting : listing.Perm dir.keys) :
    (∀ (other : ReplicaId) (before after : List String), before.Perm dir.keys →
        after.Perm (dir.cleanupOld replicaId listing keep).keys →
        (dir.cleanupOld replicaId listing keep).loadLatest other after =
          dir.loadLatest other before) ∧
      ∃ seqs kept : Finset Nat,
        (∀ seq, seq ∈ seqs ↔ dir.contains (snapshotName replicaId seq) = true) ∧
        (∀ seq, seq ∈ kept ↔ (dir.cleanupOld replicaId listing keep).contains
          (snapshotName replicaId seq) = true) ∧
        kept ⊆ seqs ∧ kept.card = min keep seqs.card ∧
        (∀ old ∈ seqs, old ∉ kept → ∀ new ∈ kept, old < new) ∧
        ∀ seq ∈ kept, ∃ payload,
          dir.get? (snapshotName replicaId seq) = some payload ∧
          (dir.cleanupOld replicaId listing keep).get? (snapshotName replicaId seq) =
            some payload ∧
          (dir.cleanupOld replicaId listing keep).get? (sidecarName replicaId seq) =
            some (sidecar payload) := by
  obtain ⟨numbered, hnumbered⟩ := h.holds replicaId
  have hclean := hnumbered.cleanupOld hlisting keep
  constructor
  · intro other before after hbefore hafter
    by_cases heq : other = replicaId
    · subst heq
      rw [hnumbered.loadLatest hbefore, hclean.loadLatest hafter]
      exact loadLatest_cleanupOld numbered hkeep
    · obtain ⟨numbered', hnumbered'⟩ := h.holds other
      rw [hnumbered'.loadLatest hbefore]
      exact (hnumbered.cleanupOld_other hlisting keep heq hnumbered').loadLatest hafter
  · obtain ⟨seqs, kept, hseqs, hkept, hsub, hcard, hhigh⟩ := hnumbered.remaining hlisting keep
    refine ⟨seqs, kept, hseqs, hkept, hsub, hcard, hhigh, fun seq hseq => ?_⟩
    obtain ⟨payload, hafter⟩ := OrdMap.contains_iff.mp ((hkept seq).mp hseq)
    have hbin := hafter
    rw [hclean.bins, cleanupOld_bins] at hbin
    split at hbin
    · cases hbin
    · next hin =>
      refine ⟨payload, (hnumbered.bins seq).trans hbin, hafter, (hclean.sidecars seq payload ?_).1⟩
      rw [cleanupOld_bins, if_neg hin, hbin]

end Directory

namespace Directory

section Samples

open Sample

/-- A snapshot of a replica under a number. -/
def numberedSnapshot (replicaId seq : Nat) : Snapshot :=
  Snapshot.capture 0 seq replicaId 0 0 [] OrdMap.empty [] none none 1 none

/-- Three snapshots of replica 1 and one of replica 12, beside a log and a stray sidecar. -/
def twoReplicas : Directory :=
  [numberedSnapshot 1 9, numberedSnapshot 12 3, numberedSnapshot 1 10, numberedSnapshot 1 2].foldl
    (fun dir snap => dir.save snap)
    (OrdMap.ofList [("replica_1_wal.log", []), ("replica_12_snapshot_7.sha256", [])])

theorem twoReplicas_written : Written twoReplicas := by
  have hkeys : (OrdMap.ofList [("replica_1_wal.log", ([] : Bytes)),
      ("replica_12_snapshot_7.sha256", [])]).keys =
      ["replica_12_snapshot_7.sha256", "replica_1_wal.log"] := by decide +kernel
  refine .save _ (by decide) (.save _ (by decide) (.save _ (by decide) (.save _ (by decide)
    (.start fun name hname id text htext => ?_))))
  rw [← OrdMap.mem_keys, hkeys] at hname
  have hlast := congrArg List.getLast? htext
  simp only [List.mem_cons, List.not_mem_nil, or_false] at hname
  rcases hname with rfl | rfl
  · simp at hlast
  · simp at hlast

/-- Cleaning up for replica 1 leaves the snapshots 9 and 10 of it, and what replica 12 loads. -/
theorem loadLatest_after_cleanupOld_twoReplicas :
    (twoReplicas.cleanupOld 1 twoReplicas.keys 2).loadLatest 1
        (twoReplicas.cleanupOld 1 twoReplicas.keys 2).keys =
      twoReplicas.loadLatest 1 twoReplicas.keys.reverse ∧
    (twoReplicas.cleanupOld 1 twoReplicas.keys 2).loadLatest 12
        (twoReplicas.cleanupOld 1 twoReplicas.keys 2).keys =
      twoReplicas.loadLatest 12 twoReplicas.keys := by
  have hsame := (loadLatest_after_cleanupOld twoReplicas_written 1 (by decide : 1 ≤ 2)
    (List.Perm.refl _)).1
  exact ⟨hsame 1 _ _ (List.reverse_perm _) (List.Perm.refl _),
    hsame 12 _ _ (List.Perm.refl _) (List.Perm.refl _)⟩

end Samples

end Directory

end PersistHotStuff
