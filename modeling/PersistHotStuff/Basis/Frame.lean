import Mathlib.Data.List.Basic
import Mathlib.Tactic.Ring
import Mathlib.Algebra.Order.Ring.Nat

/-!
# Checksummed frames

A log of records, each written as a little-endian length, a little-endian
checksum and a payload. The reader stops quietly where fewer than four bytes
are left and fails anywhere else the input ends early. Encoding, checksum and
decoder are parameters, so the laws hold for every record type.
-/

namespace Basis

/-- A byte string. -/
abbrev Bytes := List UInt8

/-- The `k` low bytes of `n`, least significant first. -/
def leBytes : Nat → Nat → Bytes
  | 0, _ => []
  | k + 1, n => UInt8.ofNat n :: leBytes k (n / 256)

/-- The number whose bytes are listed, least significant first. -/
def leNat : Bytes → Nat
  | [] => 0
  | b :: bs => b.toNat + 256 * leNat bs

@[simp] theorem length_leBytes (k n : Nat) : (leBytes k n).length = k := by
  induction k generalizing n with
  | zero => rfl
  | succ k ih => rw [leBytes, List.length_cons, ih]

/-- A number that fits is read back from its bytes. -/
theorem leNat_leBytes {k n : Nat} (h : n < 256 ^ k) : leNat (leBytes k n) = n := by
  induction k generalizing n with
  | zero =>
    have : n = 0 := by simpa using h
    subst this
    rfl
  | succ k ih =>
    have hd : n / 256 < 256 ^ k := by
      rw [Nat.div_lt_iff_lt_mul (by decide)]
      simpa [pow_succ] using h
    rw [leBytes, leNat, ih hd]
    simp only [UInt8.toNat_ofNat']
    omega

variable {α : Type}

/-- Why a frame could not be read. -/
inductive ReadError
  /-- The input ended inside a frame. -/
  | unexpectedEof
  /-- The stored checksum is not the one of the payload. -/
  | corrupted (offset expected actual : Nat)
  /-- The payload does not decode. -/
  | undecodable
  deriving DecidableEq, Repr

/-- One frame: length, checksum, payload. -/
def frame (crc : Bytes → UInt32) (payload : Bytes) : Bytes :=
  leBytes 4 payload.length ++ leBytes 4 (crc payload).toNat ++ payload

/-- The frames of a list of records, one after the other. -/
def frames (crc : Bytes → UInt32) (enc : α → Bytes) (es : List α) : Bytes :=
  es.flatMap fun e => frame crc (enc e)

/-- Read frames from a position on; `fuel` bounds the number of frames. -/
def readFrames (crc : Bytes → UInt32) (dec : Bytes → Option α) :
    Nat → Nat → Bytes → Except ReadError (List α)
  | 0, _, _ => .ok []
  | fuel + 1, pos, bs =>
      -- running out inside the length prefix is the normal end of the input
      if bs.length < 4 then .ok []
      else
        let len := leNat (bs.take 4)
        let rest := bs.drop 4
        if rest.length < 4 then .error .unexpectedEof
        else
          let stored := leNat (rest.take 4)
          let body := rest.drop 4
          if body.length < len then .error .unexpectedEof
          else
            let payload := body.take len
            let after := pos + 8 + len
            if (crc payload).toNat ≠ stored then
              .error (.corrupted (after - len - 8) stored (crc payload).toNat)
            else
              match dec payload with
              | none => .error .undecodable
              | some e => (readFrames crc dec fuel after (body.drop len)).map (e :: ·)

/-- Read every frame of an input. -/
def readAllFrames (crc : Bytes → UInt32) (dec : Bytes → Option α) (pos : Nat) (bs : Bytes) :
    Except ReadError (List α) :=
  readFrames crc dec (bs.length + 1) pos bs

section Laws

variable (crc : Bytes → UInt32) (enc : α → Bytes) (dec : Bytes → Option α)

@[simp] theorem length_frame (payload : Bytes) :
    (frame crc payload).length = 8 + payload.length := by
  simp only [frame, List.length_append, length_leBytes]

@[simp] theorem frames_nil : frames crc enc [] = [] := rfl

theorem frames_cons (e : α) (es : List α) :
    frames crc enc (e :: es) = frame crc (enc e) ++ frames crc enc es := rfl

theorem frames_append (es fs : List α) :
    frames crc enc (es ++ fs) = frames crc enc es ++ frames crc enc fs :=
  List.flatMap_append ..

/-- A record is no longer than the frames it is among. -/
theorem length_le_frames {e : α} {es : List α} (he : e ∈ es) :
    (enc e).length ≤ (frames crc enc es).length := by
  obtain ⟨before, after, rfl⟩ := List.append_of_mem he
  rw [frames_append, frames_cons]
  simp only [List.length_append, length_frame]
  omega

/-- A whole frame at the front is read off, and the reader continues behind it. -/
theorem readFrames_frame {e : α} (hdec : dec (enc e) = some e) (hlen : (enc e).length < 2 ^ 32)
    (fuel pos : Nat) (tail : Bytes) :
    readFrames crc dec (fuel + 1) pos (frame crc (enc e) ++ tail) =
      (readFrames crc dec fuel (pos + (frame crc (enc e)).length) tail).map (e :: ·) := by
  have hl : leNat (leBytes 4 (enc e).length) = (enc e).length := leNat_leBytes (by simpa using hlen)
  have hc : leNat (leBytes 4 (crc (enc e)).toNat) = (crc (enc e)).toNat :=
    leNat_leBytes (by simpa using (crc (enc e)).toNat_lt)
  have h4 : ∀ (n : Nat) (bs : Bytes), (leBytes 4 n ++ bs).take 4 = leBytes 4 n := by
    intro n bs
    exact List.take_left' (length_leBytes 4 n)
  have d4 : ∀ (n : Nat) (bs : Bytes), (leBytes 4 n ++ bs).drop 4 = bs := by
    intro n bs
    exact List.drop_left' (length_leBytes 4 n)
  have hshape : frame crc (enc e) ++ tail =
      leBytes 4 (enc e).length ++ (leBytes 4 (crc (enc e)).toNat ++ (enc e ++ tail)) := by
    simp only [frame, List.append_assoc]
  rw [hshape, readFrames]
  simp only [h4, d4, hl, hc, List.length_append, length_leBytes]
  rw [if_neg (by omega), if_neg (by omega), if_neg (by omega)]
  simp only [List.take_left, List.drop_left, ne_eq, not_true_eq_false, ite_false, hdec,
    length_frame, ← Nat.add_assoc]

/-- Whole frames at the front are read off in order. -/
theorem readFrames_frames {es : List α} (hdec : ∀ e ∈ es, dec (enc e) = some e)
    (hlen : ∀ e ∈ es, (enc e).length < 2 ^ 32) (fuel pos : Nat) (tail : Bytes) :
    readFrames crc dec (fuel + es.length) pos (frames crc enc es ++ tail) =
      (readFrames crc dec fuel (pos + (frames crc enc es).length) tail).map (es ++ ·) := by
  induction es generalizing pos with
  | nil =>
    simp only [frames_nil, List.nil_append, List.length_nil, Nat.add_zero]
    cases readFrames crc dec fuel pos tail <;> rfl
  | cons e es ih =>
    have hd := List.forall_mem_cons.mp hdec
    have hl := List.forall_mem_cons.mp hlen
    rw [frames_cons, List.append_assoc, List.length_cons, ← Nat.add_assoc,
      readFrames_frame crc enc dec hd.1 hl.1, ih hd.2 hl.2, List.length_append, ← Nat.add_assoc]
    cases readFrames crc dec fuel _ tail <;> rfl

/-- Any fuel beyond the length of the input reads the same. -/
theorem readFrames_fuel {fuel fuel' pos : Nat} {bs : Bytes} (h : bs.length < fuel)
    (h' : bs.length < fuel') :
    readFrames crc dec fuel pos bs = readFrames crc dec fuel' pos bs := by
  induction fuel generalizing fuel' pos bs with
  | zero => omega
  | succ fuel ih =>
    cases fuel' with
    | zero => omega
    | succ fuel' =>
      simp only [readFrames]
      split
      · rfl
      split
      · rfl
      split
      · rfl
      split
      · rfl
      cases dec (((bs.drop 4).drop 4).take (leNat (bs.take 4))) with
      | none => rfl
      | some e =>
        have hd : (((bs.drop 4).drop 4).drop (leNat (bs.take 4))).length < bs.length := by
          simp only [List.length_drop]
          omega
        have hf : (((bs.drop 4).drop 4).drop (leNat (bs.take 4))).length < fuel := by omega
        have hf' : (((bs.drop 4).drop 4).drop (leNat (bs.take 4))).length < fuel' := by omega
        simp only [ih hf hf']

/-- Fewer than four trailing bytes end the log. -/
theorem readFrames_short (fuel pos : Nat) {bs : Bytes} (h : bs.length < 4) :
    readFrames crc dec fuel pos bs = .ok [] := by
  cases fuel with
  | zero => rfl
  | succ fuel => rw [readFrames, if_pos h]

/-- A log of whole frames and a short tail reads back as its records. -/
theorem readAllFrames_frames {es : List α} (hdec : ∀ e ∈ es, dec (enc e) = some e)
    (hlen : ∀ e ∈ es, (enc e).length < 2 ^ 32) (pos : Nat) {tail : Bytes}
    (htail : tail.length < 4) :
    readAllFrames crc dec pos (frames crc enc es ++ tail) = .ok es := by
  have hfuel : (frames crc enc es ++ tail).length < (frames crc enc es ++ tail).length + 1 :=
    Nat.lt_succ_self _
  rw [readAllFrames, readFrames_fuel crc dec hfuel
    (show _ < ((frames crc enc es ++ tail).length + 1) + es.length by omega),
    readFrames_frames crc enc dec hdec hlen, readFrames_short crc dec _ _ htail]
  simp [Except.map]

/-- A frame cut after its length prefix and before its end cannot be read. -/
theorem readFrames_torn {payload part : Bytes} (hlen : payload.length < 2 ^ 32)
    (hpre : part <+: frame crc payload) (h4 : 4 ≤ part.length)
    (hcut : part.length < (frame crc payload).length) (fuel pos : Nat) :
    readFrames crc dec (fuel + 1) pos part = .error .unexpectedEof := by
  obtain ⟨miss, hmiss⟩ := hpre
  have htake : part.take 4 = leBytes 4 payload.length := by
    have h := congrArg (List.take 4) hmiss
    rwa [List.take_append_of_le_length h4, frame, List.append_assoc,
      List.take_left' (length_leBytes 4 _)] at h
  have hl : leNat (part.take 4) = payload.length := by
    rw [htake]
    exact leNat_leBytes (by simpa using hlen)
  rw [length_frame] at hcut
  rw [readFrames, if_neg (by omega)]
  simp only [hl]
  split
  · rfl
  · rename_i h8
    simp only [List.length_drop] at h8
    rw [if_pos (by simp only [List.length_drop]; omega)]

/-- A log whose last frame is cut after its length prefix does not read at all. -/
theorem readAllFrames_torn {es : List α} (hdec : ∀ e ∈ es, dec (enc e) = some e)
    (hlen : ∀ e ∈ es, (enc e).length < 2 ^ 32) {payload part : Bytes}
    (hpay : payload.length < 2 ^ 32) (hpre : part <+: frame crc payload) (h4 : 4 ≤ part.length)
    (hcut : part.length < (frame crc payload).length) (pos : Nat) :
    readAllFrames crc dec pos (frames crc enc es ++ part) = .error .unexpectedEof := by
  rw [readAllFrames, readFrames_fuel crc dec (Nat.lt_succ_self _)
    (show _ < ((frames crc enc es ++ part).length + 1) + es.length by omega),
    readFrames_frames crc enc dec hdec hlen, readFrames_torn crc dec hpay hpre h4 hcut]
  rfl

end Laws

end Basis
