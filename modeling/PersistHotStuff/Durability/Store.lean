import PersistHotStuff.Source.Snapshot

/-!
# The snapshot files

A directory holds a snapshot when the newest snapshot file is that snapshot,
serialised, with its checksum beside it. Saving under a new highest number and
cleaning up keep such a directory readable.
-/

namespace PersistHotStuff

open Basis

/-- Characters that are neither trimmed nor lowered. -/
def PlainHex (l : List Char) : Prop := ∀ c ∈ l, isWhiteSpace c = false ∧ c.toLower = c

/-- A digest is written in plain digits. -/
theorem plainHex_hexDigest (digest : Bytes) : PlainHex (hexDigest digest) := by
  have hdigit : ∀ n, n < 16 → isWhiteSpace (Nat.digitChar n) = false ∧
      (Nat.digitChar n).toLower = Nat.digitChar n := by decide
  intro c hc
  obtain ⟨b, -, hb⟩ := List.mem_flatMap.mp hc
  have hlt : b.toNat < 256 := b.toNat_lt
  simp only [List.mem_cons, List.not_mem_nil, or_false] at hb
  rcases hb with rfl | rfl
  · exact hdigit _ (by omega)
  · exact hdigit _ (Nat.mod_lt _ (by decide))

/-- Plain digits are read as they were written. -/
theorem normalizeHex_plain {l : List Char} (h : PlainHex l) : normalizeHex l = l := by
  have hdrop : ∀ l : List Char, (∀ c ∈ l, isWhiteSpace c = false) →
      l.dropWhile isWhiteSpace = l := by
    intro l hl
    cases l with
    | nil => rfl
    | cons c l => rw [List.dropWhile_cons_of_neg (by simp [hl c (List.mem_cons_self ..)])]
  rw [normalizeHex, hdrop _ fun c hc => (h c hc).1,
    hdrop _ fun c hc => (h c (List.mem_reverse.mp hc)).1, List.reverse_reverse]
  exact (List.map_congr_left fun c hc => (h c hc).2).trans (List.map_id _)

/-- The numbers cleaning up removes. -/
def expired (dir : DataDir) (keep : Nat) : List Nat :=
  dir.bins.keys.take (dir.bins.length - keep)

theorem cleanupOld_bins (dir : DataDir) (keep seq : Nat) :
    (cleanupOld dir keep).bins.get? seq =
      if seq ∈ expired dir keep then none else dir.bins.get? seq := by
  rw [cleanupOld, expired]
  generalize dir.bins.keys.take (dir.bins.length - keep) = l
  induction l generalizing dir with
  | nil => simp
  | cons k l ih =>
    rw [List.foldl_cons, ih]
    simp only [OrdMap.get?_erase, List.mem_cons]
    by_cases hk : seq = k
    · simp [hk]
    · simp [hk]

theorem cleanupOld_shas (dir : DataDir) (keep seq : Nat) :
    (cleanupOld dir keep).shas.get? seq =
      if seq ∈ expired dir keep then none else dir.shas.get? seq := by
  rw [cleanupOld, expired]
  generalize dir.bins.keys.take (dir.bins.length - keep) = l
  induction l generalizing dir with
  | nil => simp
  | cons k l ih =>
    rw [List.foldl_cons, ih]
    simp only [OrdMap.get?_erase, List.mem_cons]
    by_cases hk : seq = k
    · simp [hk]
    · simp [hk]

/-- Cleaning up leaves the log files alone. -/
theorem cleanupOld_wal (dir : DataDir) (keep : Nat) :
    (cleanupOld dir keep).wal = dir.wal ∧ (cleanupOld dir keep).walTmp = dir.walTmp := by
  rw [cleanupOld]
  generalize dir.bins.keys.take (dir.bins.length - keep) = l
  induction l generalizing dir with
  | nil => exact ⟨rfl, rfl⟩
  | cons k l ih => exact ih _

/-- The greatest number is never removed. -/
theorem last_not_expired {dir : DataDir} {seq : Nat} {payload : Bytes}
    (h : dir.bins.last? = some (seq, payload)) {keep : Nat} (hkeep : 0 < keep) :
    seq ∉ expired dir keep := by
  obtain ⟨l, hl⟩ := List.getLast?_eq_some_iff.mp h
  have hpw := dir.bins.keys_pairwise
  have hkeys : dir.bins.keys = l.map Prod.fst ++ [seq] := by
    rw [OrdMap.keys, hl, List.map_append]
    rfl
  have hlen : dir.bins.length = l.length + 1 := by
    rw [OrdMap.length, hl, List.length_append]
    rfl
  rw [hkeys] at hpw
  rw [expired, hkeys, hlen, List.take_append_of_le_length (by rw [List.length_map]; omega)]
  intro hmem
  exact absurd ((List.pairwise_append.mp hpw).2.2 seq (List.mem_of_mem_take hmem) seq
    (List.mem_singleton_self _)) (lt_irrefl _)

/-- Cleaning up adds no number. -/
theorem contains_cleanupOld {dir : DataDir} {keep seq : Nat}
    (h : (cleanupOld dir keep).bins.contains seq = true) : dir.bins.contains seq = true := by
  obtain ⟨v, hv⟩ := OrdMap.contains_iff.mp h
  rw [cleanupOld_bins] at hv
  split at hv
  · cases hv
  · exact OrdMap.contains_iff.mpr ⟨v, hv⟩

/-- Cleaning up keeps every checksum beside its snapshot. -/
theorem contains_cleanupOld_bins {dir : DataDir} {keep seq : Nat}
    (h : (cleanupOld dir keep).shas.contains seq = true)
    (hpaired : ∀ seq, dir.shas.contains seq = true → dir.bins.contains seq = true) :
    (cleanupOld dir keep).bins.contains seq = true := by
  obtain ⟨v, hv⟩ := OrdMap.contains_iff.mp h
  rw [cleanupOld_shas] at hv
  split at hv
  · cases hv
  · rename_i hin
    obtain ⟨w, hw⟩ := OrdMap.contains_iff.mp (hpaired seq (OrdMap.contains_iff.mpr ⟨v, hv⟩))
    exact OrdMap.contains_iff.mpr ⟨w, by rw [cleanupOld_bins, if_neg hin, hw]⟩

/-- After a save and a cleanup every number is below the next one. -/
theorem below_cleanupOld_save [Bincode Snapshot] [Sha256] {dir : DataDir} {snap : Snapshot}
    (h : ∀ seq, dir.bins.contains seq = true → seq < snap.snapshotId) {keep seq : Nat}
    (hseq : (cleanupOld (snap.save dir) keep).bins.contains seq = true) :
    seq < snap.snapshotId + 1 := by
  have hin := contains_cleanupOld hseq
  simp only [Snapshot.save, OrdMap.contains_insert, Bool.or_eq_true, decide_eq_true_eq] at hin
  rcases hin with rfl | hin
  · exact Nat.lt_succ_self _
  · exact Nat.lt_succ_of_lt (h seq hin)

section

variable [Bincode Snapshot] [Sha256]

/-- The newest snapshot file of a directory is the given one, or there is none. -/
def StoreHolds (dir : DataDir) : Option Snapshot → Prop
  | none => dir.bins.last? = none
  | some snap =>
      dir.bins.last? = some (snap.snapshotId, Bincode.serialize snap) ∧
        ∀ content ∈ dir.shas.get? snap.snapshotId,
          content = Snapshot.checksum (Bincode.serialize snap)

/-- A held snapshot is loaded. -/
theorem StoreHolds.loadLatest [LawfulBincode Snapshot] {dir : DataDir} {snap : Option Snapshot}
    (h : StoreHolds dir snap) :
    Snapshot.loadLatest dir =
      match snap with
      | none => .error .notFound
      | some snap => .ok snap := by
  cases snap with
  | none =>
    have hlast : dir.bins.last? = none := h
    rw [Snapshot.loadLatest, hlast]
  | some snap =>
    obtain ⟨hlast, hsha⟩ := h
    simp only [Snapshot.loadLatest, hlast]
    cases hs : dir.shas.get? snap.snapshotId with
    | none => simp only [LawfulBincode.deserialize_serialize]
    | some content =>
      rw [hsha content hs]
      have hnorm : normalizeHex (Snapshot.checksum (Bincode.serialize snap)) =
          Snapshot.checksum (Bincode.serialize snap) := normalizeHex_plain (plainHex_hexDigest _)
      simp only [hnorm, ne_eq, not_true_eq_false, if_false, LawfulBincode.deserialize_serialize]

/-- A snapshot saved under a new highest number is held. -/
theorem storeHolds_save {dir : DataDir} {snap : Snapshot}
    (hbelow : ∀ seq, dir.bins.contains seq = true → seq < snap.snapshotId) :
    StoreHolds (snap.save dir) (some snap) := by
  refine ⟨OrdMap.last?_insert_of_lt _ hbelow, fun content hc => ?_⟩
  simp only [Snapshot.save, OrdMap.get?_insert_self] at hc
  exact (Option.some.inj hc).symm

/-- Cleaning up keeps the held snapshot. -/
theorem StoreHolds.cleanupOld {dir : DataDir} {snap : Snapshot} (h : StoreHolds dir (some snap))
    {keep : Nat} (hkeep : 0 < keep) : StoreHolds (cleanupOld dir keep) (some snap) := by
  obtain ⟨hlast, hsha⟩ := h
  have hne := last_not_expired hlast hkeep
  obtain ⟨hg, hmax⟩ := OrdMap.last?_eq_some hlast
  refine ⟨OrdMap.last?_eq_some_iff.mpr ⟨?_, fun k hk => hmax k ?_⟩, fun content hc => ?_⟩
  · rw [cleanupOld_bins, if_neg hne, hg]
  · obtain ⟨v, hv⟩ := OrdMap.contains_iff.mp hk
    rw [cleanupOld_bins] at hv
    split at hv
    · cases hv
    · exact OrdMap.contains_iff.mpr ⟨v, hv⟩
  · rw [cleanupOld_shas, if_neg hne] at hc
    exact hsha content hc

end

end PersistHotStuff
