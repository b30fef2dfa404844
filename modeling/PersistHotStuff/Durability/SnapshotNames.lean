import PersistHotStuff.Source.Directory

/-!
# Names of snapshot files

A number is written in decimal digits, among which there is neither an
underscore nor a dot. So the name of a snapshot file says whose it is and which
one, and an id that starts another one is not mistaken for it.
-/

namespace PersistHotStuff

open Basis

/-- The name of the checksum sidecar of a snapshot. -/
def sidecarName (replicaId : ReplicaId) (seq : Nat) : String :=
  String.ofList (snapshotPrefix replicaId ++ Nat.toDigits 10 seq ++ ".sha256".toList)

section Digits

theorem isDigit_of_mem_toDigits_ten {n : Nat} {c : Char} (h : c ∈ Nat.toDigits 10 n) :
    c.isDigit = true :=
  Nat.isDigit_of_mem_toDigits (by decide) (by decide) h

theorem toDigits_ten_injective {m n : Nat} (h : Nat.toDigits 10 m = Nat.toDigits 10 n) :
    m = n := by
  rw [← Nat.ofDigitChars_ten_toDigits (n := m), h, Nat.ofDigitChars_ten_toDigits]

theorem dot_notMem_toDigits (n : Nat) : '.' ∉ Nat.toDigits 10 n :=
  fun h => absurd (isDigit_of_mem_toDigits_ten h) (by decide)

/-- A number in range is parsed as it is printed. -/
theorem parseU64_toDigits {n : Nat} (h : n ≤ u64Max) :
    parseU64 (Nat.toDigits 10 n) = some n := by
  have hplus : '+' ∉ Nat.toDigits 10 n :=
    fun hmem => absurd (isDigit_of_mem_toDigits_ten hmem) (by decide)
  have hall : (Nat.toDigits 10 n).all Char.isDigit = true :=
    List.all_eq_true.mpr fun c hc => isDigit_of_mem_toDigits_ten hc
  have hdigits : stripPlus (Nat.toDigits 10 n) = Nat.toDigits 10 n := by
    rw [stripPlus]
    intro rest heq
    exact hplus (heq ▸ List.mem_cons_self ..)
  have hne : (Nat.toDigits 10 n).isEmpty = false :=
    List.isEmpty_eq_false_iff.mpr Nat.toDigits_ne_nil
  simp only [parseU64, hdigits, hne, hall, Bool.not_true, Bool.or_self, Bool.false_eq_true,
    if_false, Nat.ofDigitChars_ten_toDigits, if_pos h]

end Digits

section Names

/-- Where a separator occurs in neither of two texts, what stands before it and after it can be
told. -/
theorem append_cons_inj_of_first {α : Type} {a : α} {xs ys zs ws : List α} (hxs : a ∉ xs)
    (hys : a ∉ ys) (h : xs ++ a :: zs = ys ++ a :: ws) : xs = ys ∧ zs = ws := by
  induction xs generalizing ys with
  | nil =>
    cases ys with
    | nil => exact ⟨rfl, (List.cons.inj h).2⟩
    | cons y ys => exact absurd ((List.cons.inj h).1 ▸ List.mem_cons_self ..) hys
  | cons x xs ih =>
    cases ys with
    | nil => exact absurd ((List.cons.inj h).1 ▸ List.mem_cons_self ..) hxs
    | cons y ys =>
      obtain ⟨rfl, htail⟩ := List.cons.inj h
      obtain ⟨rfl, hrest⟩ := ih (fun hm => hxs (List.mem_cons_of_mem x hm))
        (fun hm => hys (List.mem_cons_of_mem x hm)) htail
      exact ⟨rfl, hrest⟩

/-- The id stands between two underscores. -/
theorem snapshotPrefix_append (id : Nat) (rest : List Char) :
    snapshotPrefix id ++ rest =
      "replica_".toList ++ (Nat.toDigits 10 id ++ '_' :: ("snapshot_".toList ++ rest)) := by
  have hsplit : "_snapshot_".toList = '_' :: "snapshot_".toList := by decide
  unfold snapshotPrefix
  rw [hsplit, List.append_assoc, List.append_assoc, List.cons_append]

/-- The id can be told from the start of a name. -/
theorem snapshotPrefix_append_injective {id id' : Nat} {rest rest' : List Char}
    (h : snapshotPrefix id ++ rest = snapshotPrefix id' ++ rest') : id = id' ∧ rest = rest' := by
  rw [snapshotPrefix_append, snapshotPrefix_append] at h
  obtain ⟨hdigits, htail⟩ := append_cons_inj_of_first Nat.underscore_not_in_toDigits
    Nat.underscore_not_in_toDigits (List.append_cancel_left h)
  exact ⟨toDigits_ten_injective hdigits, List.append_cancel_left htail⟩

/-- Whose file a name is of, its number and its extension can be told from the name. -/
theorem snapshot_chars_injective {id id' seq seq' : Nat} {ext ext' : List Char}
    (h : snapshotPrefix id ++ Nat.toDigits 10 seq ++ '.' :: ext =
      snapshotPrefix id' ++ Nat.toDigits 10 seq' ++ '.' :: ext') :
    id = id' ∧ seq = seq' ∧ ext = ext' := by
  rw [List.append_assoc, List.append_assoc] at h
  obtain ⟨hid, hrest⟩ := snapshotPrefix_append_injective h
  obtain ⟨hdigits, hext⟩ := append_cons_inj_of_first (dot_notMem_toDigits seq)
    (dot_notMem_toDigits seq') hrest
  exact ⟨hid, toDigits_ten_injective hdigits, hext⟩

theorem snapshotName_injective {id id' seq seq' : Nat}
    (h : snapshotName id seq = snapshotName id' seq') : id = id' ∧ seq = seq' := by
  obtain ⟨hid, hseq, -⟩ := snapshot_chars_injective (String.ofList_injective h)
  exact ⟨hid, hseq⟩

theorem sidecarName_injective {id id' seq seq' : Nat}
    (h : sidecarName id seq = sidecarName id' seq') : id = id' ∧ seq = seq' := by
  obtain ⟨hid, hseq, -⟩ := snapshot_chars_injective (String.ofList_injective h)
  exact ⟨hid, hseq⟩

theorem sidecarName_ne_snapshotName (id id' seq seq' : Nat) :
    sidecarName id seq ≠ snapshotName id' seq' := by
  intro h
  obtain ⟨-, -, hext⟩ := snapshot_chars_injective (String.ofList_injective h)
  exact absurd hext (by decide)

/-- The sidecar of a snapshot file. -/
theorem withExtension_snapshotName (id seq : Nat) :
    withExtension (snapshotName id seq) "sha256" = sidecarName id seq := by
  have hbin : ".bin".toList = '.' :: "bin".toList := by decide
  have hsha : ".sha256".toList = '.' :: "sha256".toList := by decide
  obtain ⟨c, stem, hstem⟩ : ∃ c stem,
      (snapshotPrefix id ++ Nat.toDigits 10 seq).reverse = c :: stem :=
    List.exists_cons_of_ne_nil (by simp [Nat.toDigits_ne_nil])
  have hrev : (snapshotName id seq).toList.reverse =
      "bin".toList.reverse ++ '.' :: c :: stem := by
    rw [snapshotName, String.toList_ofList, hbin, List.reverse_append, List.reverse_cons,
      List.append_assoc, hstem]
    rfl
  have hspan : (snapshotName id seq).toList.reverse.span (· != '.') =
      ("bin".toList.reverse, '.' :: c :: stem) := by
    rw [hrev, List.span_eq_takeWhile_dropWhile,
      List.takeWhile_append_of_pos (by simp), List.dropWhile_append_of_pos (by simp)]
    simp
  unfold withExtension sidecarName
  rw [hspan, hsha]
  simp only
  rw [← hstem, List.reverse_reverse]

/-- There is no dot before the number. -/
theorem dot_notMem_snapshotPrefix (id : Nat) : '.' ∉ snapshotPrefix id := by
  have hstart : '.' ∉ "replica_".toList := by decide
  have hmiddle : '.' ∉ "_snapshot_".toList := by decide
  unfold snapshotPrefix
  rw [List.mem_append, List.mem_append]
  rintro ((h | h) | h)
  · exact hstart h
  · exact dot_notMem_toDigits id h
  · exact hmiddle h

/-- The number is parsed from what stands between the prefix and the extension. -/
theorem snapshotSeq_eq_some_iff {id seq : Nat} {name : String} :
    snapshotSeq id name = some seq ↔
      ∃ text, name.toList = snapshotPrefix id ++ text ++ ".bin".toList ∧
        parseU64 text = some seq := by
  have hlen : ".bin".toList.length = 4 := by decide
  have hcut : ∀ text, ((snapshotPrefix id ++ text ++ ".bin".toList).take
      ((snapshotPrefix id ++ text ++ ".bin".toList).length - 4)).drop
        (snapshotPrefix id).length = text := by
    intro text
    rw [List.length_append, hlen, Nat.add_sub_cancel, List.take_left' rfl, List.drop_left' rfl]
  unfold snapshotSeq
  constructor
  · intro h
    split at h
    · next hform =>
      rw [Bool.and_eq_true, List.isPrefixOf_iff_prefix, List.isSuffixOf_iff_suffix] at hform
      obtain ⟨⟨rest, hrest⟩, init, hinit⟩ := hform
      -- the prefix has no dot, so it does not reach into the extension
      obtain ⟨text, htext⟩ : ∃ text, name.toList = snapshotPrefix id ++ text ++ ".bin".toList := by
        rcases List.append_eq_append_iff.mp (hrest.trans hinit.symm) with
          ⟨text, rfl, -⟩ | ⟨overlap, hoverlap, hext⟩
        · exact ⟨text, hinit.symm⟩
        · cases overlap with
          | nil =>
            refine ⟨[], ?_⟩
            rw [List.append_nil, ← hinit, hoverlap, List.append_nil]
          | cons c overlap =>
            have hdot : c = '.' := by
              have hbin : ".bin".toList = '.' :: "bin".toList := by decide
              rw [hbin] at hext
              exact (List.cons.inj hext).1.symm
            refine absurd ?_ (dot_notMem_snapshotPrefix id)
            rw [hoverlap, hdot]
            exact List.mem_append_right _ (List.mem_cons_self ..)
      rw [htext, hcut] at h
      exact ⟨text, htext, h⟩
    · cases h
  · rintro ⟨text, htext, hparse⟩
    have hform : ((snapshotPrefix id).isPrefixOf name.toList &&
        ".bin".toList.isSuffixOf name.toList) = true := by
      rw [Bool.and_eq_true, List.isPrefixOf_iff_prefix, List.isSuffixOf_iff_suffix, htext]
      exact ⟨⟨_, (List.append_assoc ..).symm⟩, _, rfl⟩
    rw [if_pos hform, htext, hcut]
    exact hparse

/-- The number is read off the name of a snapshot, but only by the replica it is of. -/
theorem snapshotSeq_snapshotName {id id' seq n : Nat} (h : seq ≤ u64Max) :
    snapshotSeq id (snapshotName id' seq) = some n ↔ id = id' ∧ seq = n := by
  rw [snapshotSeq_eq_some_iff, snapshotName, String.toList_ofList]
  constructor
  · rintro ⟨text, htext, hparse⟩
    rw [List.append_assoc, List.append_assoc] at htext
    obtain ⟨rfl, hrest⟩ := snapshotPrefix_append_injective htext
    rw [← List.append_cancel_right hrest, parseU64_toDigits h] at hparse
    exact ⟨rfl, Option.some.inj hparse⟩
  · rintro ⟨rfl, rfl⟩
    exact ⟨_, rfl, parseU64_toDigits h⟩

/-- A sidecar is not taken for a snapshot. -/
theorem snapshotSeq_sidecarName (id id' seq : Nat) :
    snapshotSeq id (sidecarName id' seq) = none := by
  rw [Option.eq_none_iff_forall_ne_some]
  intro n h
  obtain ⟨text, htext, -⟩ := snapshotSeq_eq_some_iff.mp h
  have hlast := congrArg List.getLast? htext
  rw [sidecarName, String.toList_ofList] at hlast
  simp at hlast

end Names

end PersistHotStuff
