import PersistHotStuff.Basis.CutFrames

/-!
# What the frame reader accepts

Every input splits into intact frames and a rest that does not start with one.
The reader returns the records of the frames, or the error that the rest gives
rise to, so its outcome on any bytes is known from how they split. The payloads
of the frames need not be what the encoder writes; they only have to decode.
-/

namespace Basis

/-- Reading bytes as a number and writing it back restores them. -/
theorem leBytes_leNat (bs : Bytes) : leBytes bs.length (leNat bs) = bs := by
  induction bs with
  | nil => rfl
  | cons b bs ih =>
    have hdiv : (b.toNat + 256 * leNat bs) / 256 = leNat bs := by
      have hb : b.toNat < 256 := b.toNat_lt
      omega
    have hhead : UInt8.ofNat (b.toNat + 256 * leNat bs) = b := by
      apply UInt8.toNat_inj.mp
      rw [UInt8.toNat_ofNat', Nat.add_mul_mod_self_left]
      exact Nat.mod_eq_of_lt b.toNat_lt
    rw [leNat, List.length_cons, leBytes, hdiv, ih, hhead]

/-- A frame with any stored checksum. -/
def rawFrame (stored : Nat) (payload : Bytes) : Bytes :=
  leBytes 4 payload.length ++ leBytes 4 stored ++ payload

@[simp] theorem length_rawFrame (stored : Nat) (payload : Bytes) :
    (rawFrame stored payload).length = 8 + payload.length := by
  simp only [rawFrame, List.length_append, length_leBytes]

/-- The input ends inside a length prefix, ends inside a frame, or starts with a frame. -/
theorem front_cases (bs : Bytes) :
    bs.length < 4 ∨ (4 ≤ bs.length ∧ bs.length < 8 + leNat (bs.take 4)) ∨
      ∃ stored payload rest, stored < 2 ^ 32 ∧ payload.length < 2 ^ 32 ∧
        bs = rawFrame stored payload ++ rest := by
  by_cases h4 : bs.length < 4
  · exact .inl h4
  · by_cases hlen : bs.length < 8 + leNat (bs.take 4)
    · exact .inr (.inl ⟨not_lt.mp h4, hlen⟩)
    · refine .inr (.inr ⟨leNat ((bs.drop 4).take 4), (bs.drop 8).take (leNat (bs.take 4)),
        (bs.drop 8).drop (leNat (bs.take 4)), ?_, ?_, ?_⟩)
      · have hbound := leNat_lt ((bs.drop 4).take 4)
        rw [show ((bs.drop 4).take 4).length = 4 by simp; omega] at hbound
        exact hbound.trans_eq (by norm_num)
      · have hbound := leNat_lt (bs.take 4)
        rw [show (bs.take 4).length = 4 by simp; omega] at hbound
        rw [List.length_take]
        exact (Nat.min_le_left ..).trans_lt (hbound.trans_eq (by norm_num))
      · have hpayload : ((bs.drop 8).take (leNat (bs.take 4))).length = leNat (bs.take 4) := by
          simp only [List.length_take, List.length_drop]
          omega
        have hprefix : leBytes 4 (leNat (bs.take 4)) = bs.take 4 := by
          have h := leBytes_leNat (bs.take 4)
          rwa [show (bs.take 4).length = 4 by simp; omega] at h
        have hstored : leBytes 4 (leNat ((bs.drop 4).take 4)) = (bs.drop 4).take 4 := by
          have h := leBytes_leNat ((bs.drop 4).take 4)
          rwa [show ((bs.drop 4).take 4).length = 4 by simp; omega] at h
        have hdrop : bs.drop 8 = (bs.drop 4).drop 4 := by rw [List.drop_drop]
        rw [rawFrame, hpayload, hprefix, hstored, List.append_assoc, List.take_append_drop, hdrop,
          List.append_assoc, List.take_append_drop, List.take_append_drop]

variable {α : Type} (crc : Bytes → UInt32) (dec : Bytes → Option α)

/-- Intact frames, one after the other. -/
def payloadFrames (payloads : List Bytes) : Bytes := payloads.flatMap (frame crc)

/-- The bytes behind the last whole frame; `fuel` bounds the number of frames. -/
def leftover : Nat → Bytes → Bytes
  | 0, bs => bs
  | fuel + 1, bs =>
      if bs.length < 8 + leNat (bs.take 4) then bs
      else leftover fuel (bs.drop (8 + leNat (bs.take 4)))

/-- Payloads that fit their length prefix and decode to the given records. -/
def Decodes (payloads : List Bytes) (es : List α) : Prop :=
  List.Forall₂ (fun payload e => payload.length < 2 ^ 32 ∧ dec payload = some e) payloads es

/-- How reading ends at a position in front of a rest that does not start with an intact frame. -/
inductive Ends (pos : Nat) : Bytes → Except ReadError Unit → Prop
  /-- The rest is too short for a length prefix. -/
  | done {rest : Bytes} : rest.length < 4 → Ends pos rest (.ok ())
  /-- The rest is shorter than the frame it starts. -/
  | torn {rest : Bytes} : 4 ≤ rest.length → rest.length < 8 + leNat (rest.take 4) →
      Ends pos rest (.error .unexpectedEof)
  | corrupted {stored : Nat} {payload rest : Bytes} : stored < 2 ^ 32 → payload.length < 2 ^ 32 →
      (crc payload).toNat ≠ stored →
      Ends pos (rawFrame stored payload ++ rest)
        (.error (.corrupted pos stored (crc payload).toNat))
  | undecodable {payload rest : Bytes} : payload.length < 2 ^ 32 → dec payload = none →
      Ends pos (frame crc payload ++ rest) (.error .undecodable)

theorem payloadFrames_cons (payload : Bytes) (payloads : List Bytes) :
    payloadFrames crc (payload :: payloads) = frame crc payload ++ payloadFrames crc payloads := rfl

/-- Fewer than four bytes behind frames are left over. -/
theorem leftover_payloadFrames {payloads : List Bytes} {es : List α} (h : Decodes dec payloads es)
    {tail : Bytes} (htail : tail.length < 4) {fuel : Nat} (hfuel : payloads.length ≤ fuel) :
    leftover fuel (payloadFrames crc payloads ++ tail) = tail := by
  induction h generalizing fuel with
  | nil =>
    have hnil : payloadFrames crc [] ++ tail = tail := rfl
    rw [hnil]
    cases fuel with
    | zero => rfl
    | succ fuel => rw [leftover, if_pos (by omega)]
  | @cons payload e payloads es hone _ ih =>
    obtain ⟨fuel, rfl⟩ : ∃ k, fuel = k + 1 := ⟨fuel - 1, by rw [List.length_cons] at hfuel; omega⟩
    have hlen : leNat ((payloadFrames crc (payload :: payloads) ++ tail).take 4) =
        payload.length := by
      rw [payloadFrames_cons, frame, List.append_assoc, List.append_assoc, List.append_assoc,
        List.take_left' (length_leBytes 4 _)]
      exact leNat_leBytes (by simpa using hone.1)
    have hframe : (frame crc payload).length = 8 + payload.length := length_frame crc payload
    rw [leftover, hlen, payloadFrames_cons, List.append_assoc, if_neg (by
      rw [List.length_append, hframe]
      omega), List.drop_left' hframe]
    exact ih (Nat.le_of_succ_le_succ hfuel)

/-- There are no more frames than bytes. -/
theorem length_le_payloadFrames (payloads : List Bytes) (tail : Bytes) :
    payloads.length ≤ (payloadFrames crc payloads ++ tail).length := by
  induction payloads with
  | nil => exact Nat.zero_le _
  | cons payload payloads ih =>
    rw [payloadFrames_cons, List.append_assoc, List.length_append, List.length_cons, length_frame]
    omega

/-- A frame at the front is checked, decoded and read off. -/
theorem readFrames_rawFrame {stored : Nat} {payload : Bytes} (hstored : stored < 2 ^ 32)
    (hlen : payload.length < 2 ^ 32) (fuel pos : Nat) (rest : Bytes) :
    readFrames crc dec (fuel + 1) pos (rawFrame stored payload ++ rest) =
      if (crc payload).toNat ≠ stored then .error (.corrupted pos stored (crc payload).toNat)
      else (dec payload).elim (.error .undecodable) fun e =>
        (readFrames crc dec fuel (pos + 8 + payload.length) rest).map (e :: ·) := by
  have hl : leNat (leBytes 4 payload.length) = payload.length :=
    leNat_leBytes (by simpa using hlen)
  have hs : leNat (leBytes 4 stored) = stored := leNat_leBytes (by simpa using hstored)
  have h4 : ∀ (n : Nat) (bs : Bytes), (leBytes 4 n ++ bs).take 4 = leBytes 4 n :=
    fun n bs => List.take_left' (length_leBytes 4 n)
  have d4 : ∀ (n : Nat) (bs : Bytes), (leBytes 4 n ++ bs).drop 4 = bs :=
    fun n bs => List.drop_left' (length_leBytes 4 n)
  have hshape : rawFrame stored payload ++ rest =
      leBytes 4 payload.length ++ (leBytes 4 stored ++ (payload ++ rest)) := by
    simp only [rawFrame, List.append_assoc]
  rw [hshape, readFrames]
  simp only [h4, d4, hl, hs, List.length_append, length_leBytes]
  rw [if_neg (by omega), if_neg (by omega), if_neg (by omega)]
  simp only [List.take_left, List.drop_left]
  have hpos : pos + 8 + payload.length - payload.length - 8 = pos := by omega
  rw [hpos]
  cases dec payload <;> rfl

/-- A rest shorter than the frame it starts is an error. -/
theorem readFrames_cut {rest : Bytes} (h4 : 4 ≤ rest.length)
    (hcut : rest.length < 8 + leNat (rest.take 4)) (fuel pos : Nat) :
    readFrames crc dec (fuel + 1) pos rest = .error .unexpectedEof := by
  rw [readFrames, if_neg (not_lt.mpr h4)]
  by_cases h8 : (rest.drop 4).length < 4
  · exact if_pos h8
  · rw [List.length_drop] at h8
    dsimp only
    rw [if_neg (by rw [List.length_drop]; exact h8),
      if_pos (by simp only [List.length_drop]; omega)]

/-- Reading ends as the rest says. -/
theorem readFrames_ends {pos : Nat} {rest : Bytes} {out : Except ReadError Unit}
    (h : Ends crc dec pos rest out) (fuel : Nat) :
    readFrames crc dec (fuel + 1) pos rest = out.map fun _ => [] := by
  cases h with
  | done hshort =>
    rw [readFrames_short crc dec _ _ hshort]
    rfl
  | torn h4 hcut =>
    rw [readFrames_cut crc dec h4 hcut]
    rfl
  | corrupted hstored hlen hne =>
    rw [readFrames_rawFrame crc dec hstored hlen, if_pos hne]
    rfl
  | @undecodable payload _ hlen hnone =>
    have hstored : (crc payload).toNat < 2 ^ 32 := (crc payload).toNat_lt
    rw [frame, ← rawFrame, readFrames_rawFrame crc dec hstored hlen, if_neg (not_not.mpr rfl),
      hnone]
    rfl

/-- Intact frames at the front are read off in order. -/
theorem readFrames_payloadFrames {payloads : List Bytes} {es : List α}
    (h : Decodes dec payloads es) (fuel pos : Nat) (rest : Bytes) :
    readFrames crc dec (fuel + payloads.length) pos (payloadFrames crc payloads ++ rest) =
      (readFrames crc dec fuel (pos + (payloadFrames crc payloads).length) rest).map (es ++ ·) := by
  induction h generalizing pos with
  | nil =>
    rw [payloadFrames, List.flatMap_nil, List.nil_append, List.length_nil, List.length_nil,
      Nat.add_zero, Nat.add_zero]
    cases readFrames crc dec fuel pos rest <;> rfl
  | @cons payload e payloads es hone _ ih =>
    have hstored : (crc payload).toNat < 2 ^ 32 := (crc payload).toNat_lt
    rw [payloadFrames_cons, List.append_assoc, List.length_cons, ← Nat.add_assoc, frame, ← rawFrame,
      readFrames_rawFrame crc dec hstored hone.1, if_neg (not_not.mpr rfl), hone.2,
      Option.elim_some, ih, List.length_append, length_rawFrame, ← Nat.add_assoc, ← Nat.add_assoc]
    cases readFrames crc dec fuel _ rest <;> rfl

/-- Every input splits into intact frames and a rest at which reading ends. -/
theorem exists_split (pos : Nat) (bs : Bytes) :
    ∃ payloads es rest out, Decodes dec payloads es ∧ bs = payloadFrames crc payloads ++ rest ∧
      Ends crc dec (pos + (payloadFrames crc payloads).length) rest out := by
  induction hn : bs.length using Nat.strong_induction_on generalizing pos bs with
  | _ n ih =>
    have hstop : ∀ {out}, Ends crc dec pos bs out →
        ∃ payloads es rest out, Decodes dec payloads es ∧
          bs = payloadFrames crc payloads ++ rest ∧
            Ends crc dec (pos + (payloadFrames crc payloads).length) rest out :=
      fun hends => ⟨[], [], bs, _, .nil, rfl, hends⟩
    rcases front_cases bs with hshort | ⟨h4, hcut⟩ | ⟨stored, payload, rest, hstored, hlen, hbs⟩
    · exact hstop (.done hshort)
    · exact hstop (.torn h4 hcut)
    · by_cases hcrc : (crc payload).toNat = stored
      · have hframe : bs = frame crc payload ++ rest := by
          rw [hbs, ← hcrc]
          rfl
        cases hdec : dec payload with
        | none =>
          rw [hframe] at hstop ⊢
          exact hstop (.undecodable hlen hdec)
        | some e =>
          have hlt : rest.length < n := by
            rw [← hn, hbs, List.length_append, length_rawFrame]
            omega
          obtain ⟨payloads, es, rest', out, hdecodes, hrest, hends⟩ :=
            ih rest.length hlt (pos + (frame crc payload).length) rest rfl
          refine ⟨payload :: payloads, e :: es, rest', out, .cons ⟨hlen, hdec⟩ hdecodes, ?_, ?_⟩
          · rw [hframe, hrest, payloadFrames_cons, List.append_assoc]
          · rwa [payloadFrames_cons, List.length_append, ← Nat.add_assoc]
      · rw [hbs] at hstop ⊢
        exact hstop (.corrupted hstored hlen hcrc)

/-- Reading an input reads the intact frames at its front and then what is behind them. -/
theorem readAllFrames_payloadFrames {payloads : List Bytes} {es : List α}
    (h : Decodes dec payloads es) (pos : Nat) (rest : Bytes) :
    readAllFrames crc dec pos (payloadFrames crc payloads ++ rest) =
      (readAllFrames crc dec (pos + (payloadFrames crc payloads).length) rest).map (es ++ ·) := by
  have hfuel : (payloadFrames crc payloads ++ rest).length <
      ((payloadFrames crc payloads ++ rest).length + 1) + payloads.length := by omega
  have hrest : rest.length < (payloadFrames crc payloads ++ rest).length + 1 := by
    rw [List.length_append]
    omega
  rw [readAllFrames, readAllFrames, readFrames_fuel crc dec (Nat.lt_succ_self _) hfuel,
    readFrames_payloadFrames crc dec h, readFrames_fuel crc dec hrest (Nat.lt_succ_self _)]

/-- The outcome on an input that splits into intact frames and a rest. -/
theorem readAllFrames_split {payloads : List Bytes} {es : List α} (h : Decodes dec payloads es)
    {pos : Nat} {rest : Bytes} {out : Except ReadError Unit}
    (hends : Ends crc dec (pos + (payloadFrames crc payloads).length) rest out) :
    readAllFrames crc dec pos (payloadFrames crc payloads ++ rest) = out.map fun _ => es := by
  rw [readAllFrames_payloadFrames crc dec h, readAllFrames, readFrames_ends crc dec hends]
  cases out with
  | error err => rfl
  | ok u =>
    show Except.ok (es ++ []) = Except.ok es
    rw [List.append_nil]

/-- Reading has an outcome exactly when the input splits into intact frames and a rest that leads
to it. -/
theorem readAllFrames_eq_iff (pos : Nat) (bs : Bytes) (result : Except ReadError (List α)) :
    readAllFrames crc dec pos bs = result ↔
      ∃ payloads es rest out, Decodes dec payloads es ∧ bs = payloadFrames crc payloads ++ rest ∧
        Ends crc dec (pos + (payloadFrames crc payloads).length) rest out ∧
        result = out.map fun _ => es := by
  constructor
  · rintro rfl
    obtain ⟨payloads, es, rest, out, hdecodes, hbs, hends⟩ := exists_split crc dec pos bs
    refine ⟨payloads, es, rest, out, hdecodes, hbs, hends, ?_⟩
    rw [hbs]
    exact readAllFrames_split crc dec hdecodes hends
  · rintro ⟨payloads, es, rest, out, hdecodes, rfl, hends, rfl⟩
    exact readAllFrames_split crc dec hdecodes hends

/-- Records are returned exactly for their frames with fewer than four bytes behind them. -/
theorem readAllFrames_ok_iff (pos : Nat) (bs : Bytes) (es : List α) :
    readAllFrames crc dec pos bs = .ok es ↔
      ∃ payloads tail, bs = payloadFrames crc payloads ++ tail ∧ Decodes dec payloads es ∧
        tail.length < 4 := by
  rw [readAllFrames_eq_iff]
  constructor
  · rintro ⟨payloads, es', rest, out, hdecodes, hbs, hends, hres⟩
    cases hends with
    | done hshort =>
      cases hres
      exact ⟨payloads, rest, hbs, hdecodes, hshort⟩
    | _ => cases hres
  · rintro ⟨payloads, tail, hbs, hdecodes, hshort⟩
    exact ⟨payloads, es, tail, .ok (), hdecodes, hbs, .done hshort, rfl⟩

/-- Corruption is reported exactly where, behind intact frames, the first one stands whose checksum
is wrong. -/
theorem readAllFrames_corrupted_iff (pos : Nat) (bs : Bytes) (offset expected actual : Nat) :
    readAllFrames crc dec pos bs = .error (.corrupted offset expected actual) ↔
      ∃ payloads es payload tail, Decodes dec payloads es ∧
        bs = payloadFrames crc payloads ++ (rawFrame expected payload ++ tail) ∧
        expected < 2 ^ 32 ∧ payload.length < 2 ^ 32 ∧ actual = (crc payload).toNat ∧
        actual ≠ expected ∧ offset = pos + (payloadFrames crc payloads).length := by
  rw [readAllFrames_eq_iff]
  constructor
  · rintro ⟨payloads, es, rest, out, hdecodes, hbs, hends, hres⟩
    cases hends with
    | @corrupted stored payload tail hstored hlen hne =>
      cases hres
      exact ⟨payloads, es, payload, tail, hdecodes, hbs, hstored, hlen, rfl, hne, rfl⟩
    | _ => cases hres
  · rintro ⟨payloads, es, payload, tail, hdecodes, hbs, hstored, hlen, rfl, hne, rfl⟩
    exact ⟨payloads, es, _, _, hdecodes, hbs, .corrupted hstored hlen hne, rfl⟩

end Basis
