import PersistHotStuff.Basis.Frame

/-!
# Frames cut at any byte

A log that loses its end keeps the frames that lie wholly before the cut and a
part of the next one. Reading succeeds exactly when that part is shorter than a
length prefix and no length was too great for its prefix. The decoder is strict:
it decodes no proper start of an encoded record.
-/

namespace Basis

/-- A number read from bytes is bounded by their count. -/
theorem leNat_lt (bs : Bytes) : leNat bs < 256 ^ bs.length := by
  induction bs with
  | nil => exact Nat.one_pos
  | cons b bs ih =>
    have hb : b.toNat < 256 := b.toNat_lt
    rw [leNat, List.length_cons, pow_succ]
    omega

variable {α : Type} (crc : Bytes → UInt32) (enc : α → Bytes) (dec : Bytes → Option α)

/-- The records whose frames lie wholly within the first bytes. -/
def wholeFrames : List α → Nat → List α
  | [], _ => []
  | e :: es, room =>
      if (frame crc (enc e)).length ≤ room then
        e :: wholeFrames es (room - (frame crc (enc e)).length)
      else []

/-- A record too long for its length prefix cannot be read, nor any part of its frame that reaches
beyond the prefix. -/
theorem readFrames_oversize {e : α} (hstrict : ∀ k < (enc e).length, dec ((enc e).take k) = none)
    (hlen : 2 ^ 32 ≤ (enc e).length) {part tail : Bytes} (hpre : part <+: frame crc (enc e) ++ tail)
    (h4 : 4 ≤ part.length) (fuel pos : Nat) :
    ∃ err, readFrames crc dec (fuel + 1) pos part = .error err := by
  obtain ⟨miss, hmiss⟩ := hpre
  have hlt : leNat (part.take 4) < (enc e).length := by
    have hbound := leNat_lt (part.take 4)
    rw [List.length_take, Nat.min_eq_left h4] at hbound
    exact (hbound.trans_eq (by norm_num)).trans_le hlen
  rw [readFrames, if_neg (by omega)]
  by_cases h8 : (part.drop 4).length < 4
  · exact ⟨_, if_pos h8⟩
  · rw [if_neg h8]
    by_cases hbody : ((part.drop 4).drop 4).length < leNat (part.take 4)
    · exact ⟨_, if_pos hbody⟩
    · -- the payload read is a proper start of the record
      have hdrop : (part.drop 4).drop 4 ++ miss = enc e ++ tail := by
        have h := congrArg (List.drop 8) hmiss
        have hframe : (frame crc (enc e) ++ tail).drop 8 = enc e ++ tail := by
          rw [frame, List.append_assoc]
          exact List.drop_left' (by simp)
        rw [List.length_drop] at h8
        rw [hframe, List.drop_append_of_le_length (by omega)] at h
        rw [List.drop_drop]
        exact h
      have hpayload : ((part.drop 4).drop 4).take (leNat (part.take 4)) =
          (enc e).take (leNat (part.take 4)) := by
        have h := congrArg (List.take (leNat (part.take 4))) hdrop
        rwa [List.take_append_of_le_length (by omega),
          List.take_append_of_le_length hlt.le] at h
      rw [if_neg hbody]
      simp only [hpayload, hstrict _ hlt]
      split
      · exact ⟨_, rfl⟩
      · exact ⟨_, rfl⟩

/-- A log with a record too long for its length prefix cannot be read. -/
theorem readFrames_of_oversize {es : List α} (hdec : ∀ e ∈ es, dec (enc e) = some e)
    (hstrict : ∀ e ∈ es, ∀ k < (enc e).length, dec ((enc e).take k) = none)
    (hlong : ∃ e ∈ es, 2 ^ 32 ≤ (enc e).length) {fuel : Nat}
    (hfuel : (frames crc enc es).length < fuel) (pos : Nat) :
    ∃ err, readFrames crc dec fuel pos (frames crc enc es) = .error err := by
  induction es generalizing fuel pos with
  | nil =>
    obtain ⟨e, he, -⟩ := hlong
    cases he
  | cons e es ih =>
    obtain ⟨hd, hdec⟩ := List.forall_mem_cons.mp hdec
    obtain ⟨hs, hstrict⟩ := List.forall_mem_cons.mp hstrict
    obtain ⟨fuel, rfl⟩ : ∃ k, fuel = k + 1 := ⟨fuel - 1, by omega⟩
    have h8 := length_frame crc (enc e)
    rw [frames_cons, List.length_append] at hfuel
    by_cases hlen : (enc e).length < 2 ^ 32
    · have hrest : ∃ e ∈ es, 2 ^ 32 ≤ (enc e).length := by
        obtain ⟨e', he', hlong⟩ := hlong
        rcases List.mem_cons.mp he' with rfl | he'
        · exact absurd hlen (not_lt.mpr hlong)
        · exact ⟨e', he', hlong⟩
      have hinner : (frames crc enc es).length < fuel := by omega
      obtain ⟨err, herr⟩ := ih hdec hstrict hrest hinner (pos + (frame crc (enc e)).length)
      rw [frames_cons, readFrames_frame crc enc dec hd hlen, herr]
      exact ⟨err, rfl⟩
    · have h4 : 4 ≤ (frames crc enc (e :: es)).length := by
        rw [frames_cons, List.length_append]
        omega
      exact readFrames_oversize crc enc dec hs (not_lt.mp hlen) (List.prefix_refl _) h4 fuel pos

/-- A log cut at any byte reads back as its whole frames exactly when these have lengths that fit
their prefixes and less than a prefix is left of the frame that is cut. -/
theorem readFrames_cut_iff {es : List α} (hdec : ∀ e ∈ es, dec (enc e) = some e)
    (hstrict : ∀ e ∈ es, ∀ k < (enc e).length, dec ((enc e).take k) = none) (room pos : Nat)
    {fuel : Nat} (hfuel : ((frames crc enc es).take room).length < fuel) :
    readFrames crc dec fuel pos ((frames crc enc es).take room) =
        .ok (wholeFrames crc enc es room) ↔
      (∀ e ∈ wholeFrames crc enc es room, (enc e).length < 2 ^ 32) ∧
        ((frames crc enc es).take room).length <
          (frames crc enc (wholeFrames crc enc es room)).length + 4 := by
  induction es generalizing room pos fuel with
  | nil =>
    have htake : (frames crc enc []).take room = [] := List.take_nil
    rw [htake, readFrames_short crc dec fuel pos (show ([] : Bytes).length < 4 by decide)]
    exact iff_of_true rfl ⟨fun e he => (by cases he),
      Nat.lt_of_lt_of_le (by decide) (Nat.le_add_left ..)⟩
  | cons e es ih =>
    obtain ⟨hd, hdec⟩ := List.forall_mem_cons.mp hdec
    obtain ⟨hs, hstrict⟩ := List.forall_mem_cons.mp hstrict
    obtain ⟨fuel, rfl⟩ : ∃ k, fuel = k + 1 := ⟨fuel - 1, by omega⟩
    by_cases hroom : (frame crc (enc e)).length ≤ room
    · have htake : (frames crc enc (e :: es)).take room =
          frame crc (enc e) ++
            (frames crc enc es).take (room - (frame crc (enc e)).length) := by
        rw [frames_cons, List.take_append, List.take_of_length_le hroom]
      have hwhole : wholeFrames crc enc (e :: es) room =
          e :: wholeFrames crc enc es (room - (frame crc (enc e)).length) := if_pos hroom
      have h8 := length_frame crc (enc e)
      rw [htake, List.length_append] at hfuel
      rw [htake, hwhole, frames_cons, List.length_append, List.length_append,
        List.forall_mem_cons]
      by_cases hlen : (enc e).length < 2 ^ 32
      · have hfuel' : ((frames crc enc es).take (room - (frame crc (enc e)).length)).length <
            fuel := by omega
        have hinner := ih hdec hstrict (room - (frame crc (enc e)).length)
          (pos + (frame crc (enc e)).length) hfuel'
        rw [readFrames_frame crc enc dec hd hlen]
        generalize readFrames crc dec fuel _ _ = read at hinner ⊢
        have hmap : read.map (e :: ·) =
              .ok (e :: wholeFrames crc enc es (room - (frame crc (enc e)).length)) ↔
            read = .ok (wholeFrames crc enc es (room - (frame crc (enc e)).length)) := by
          cases read with
          | error err => simp [Except.map]
          | ok l => simp [Except.map]
        rw [hmap, hinner]
        constructor
        · rintro ⟨hall, hrest⟩
          exact ⟨⟨hlen, hall⟩, by omega⟩
        · rintro ⟨⟨-, hall⟩, hrest⟩
          exact ⟨hall, by omega⟩
      · obtain ⟨err, herr⟩ := readFrames_oversize crc enc dec hs (not_lt.mp hlen)
          (List.prefix_refl (frame crc (enc e) ++
            (frames crc enc es).take (room - (frame crc (enc e)).length)))
          (by rw [List.length_append]; omega) fuel pos
        rw [herr]
        exact iff_of_false (fun h => by cases h) fun h => hlen h.1.1
    · have htake : (frames crc enc (e :: es)).take room = (frame crc (enc e)).take room := by
        rw [frames_cons, List.take_append_of_le_length (by omega)]
      have hwhole : wholeFrames crc enc (e :: es) room = [] := if_neg hroom
      have hpre := List.take_prefix room (frame crc (enc e))
      have hcut : ((frame crc (enc e)).take room).length < (frame crc (enc e)).length := by
        rw [List.length_take]
        omega
      rw [htake, hwhole, frames_nil, List.length_nil, Nat.zero_add]
      by_cases h4 : ((frame crc (enc e)).take room).length < 4
      · rw [readFrames_short crc dec _ _ h4]
        exact iff_of_true rfl ⟨fun e he => (by cases he), h4⟩
      · have herr : ∃ err, readFrames crc dec (fuel + 1) pos ((frame crc (enc e)).take room) =
            .error err := by
          by_cases hlen : (enc e).length < 2 ^ 32
          · exact ⟨_, readFrames_torn crc dec hlen hpre (by omega) hcut fuel pos⟩
          · exact readFrames_oversize crc enc dec hs (not_lt.mp hlen)
              (hpre.trans (List.prefix_append _ [])) (by omega) fuel pos
        obtain ⟨err, herr⟩ := herr
        rw [herr]
        exact iff_of_false (fun h => by cases h) fun h => h4 h.2

/-- Reading a log cut at any byte, from its start. -/
theorem readAllFrames_cut_iff {es : List α} (hdec : ∀ e ∈ es, dec (enc e) = some e)
    (hstrict : ∀ e ∈ es, ∀ k < (enc e).length, dec ((enc e).take k) = none) (room pos : Nat) :
    readAllFrames crc dec pos ((frames crc enc es).take room) =
        .ok (wholeFrames crc enc es room) ↔
      (∀ e ∈ wholeFrames crc enc es room, (enc e).length < 2 ^ 32) ∧
        ((frames crc enc es).take room).length <
          (frames crc enc (wholeFrames crc enc es room)).length + 4 :=
  readFrames_cut_iff crc enc dec hdec hstrict room pos (Nat.lt_succ_self _)

end Basis
