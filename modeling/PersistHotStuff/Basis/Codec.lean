import PersistHotStuff.Basis.Frame

/-!
# Canonical codecs

A codec reads its own writing off the front of any input, and reads nothing but
its own writing. Both laws are fields, so every codec built from the combinators
below has them. A strict prefix of a written value is then never read.
-/

namespace Basis

/-- A writer and a reader that consumes exactly what was written. -/
structure Codec (α : Type) where
  write : α → Bytes
  read : Bytes → Option (α × Bytes)
  /-- What was written is read back, in front of every continuation. -/
  read_write : ∀ a rest, read (write a ++ rest) = some (a, rest)
  /-- Only written values are read. -/
  write_read : ∀ bs a rest, read bs = some (a, rest) → bs = write a ++ rest

namespace Codec

variable {α β : Type}

/-- Read a whole input as one value. -/
def decode (c : Codec α) (bs : Bytes) : Option α :=
  match c.read bs with
  | some (a, []) => some a
  | _ => none

/-- A written value decodes to itself. -/
theorem decode_write (c : Codec α) (a : α) : c.decode (c.write a) = some a := by
  have h := c.read_write a []
  rw [List.append_nil] at h
  rw [decode, h]

/-- A written value that is cut short does not decode. -/
theorem decode_cut (c : Codec α) {a : α} {part : Bytes} (hpre : part <+: c.write a)
    (hne : part ≠ c.write a) : c.decode part = none := by
  obtain ⟨miss, hmiss⟩ := hpre
  cases hr : c.read part with
  | none => simp only [decode, hr]
  | some p =>
    obtain ⟨b, rest⟩ := p
    have hpart := c.write_read part b rest hr
    have hself := c.read_write a []
    rw [List.append_nil, ← hmiss, hpart, List.append_assoc, c.read_write] at hself
    obtain ⟨-, hnil⟩ := Prod.mk.inj (Option.some.inj hself)
    rw [(List.append_eq_nil_iff.mp hnil).2, List.append_nil] at hmiss
    exact absurd hmiss hne

/-- No proper start of a written value decodes. -/
theorem decode_take (c : Codec α) (a : α) {k : Nat} (hk : k < (c.write a).length) :
    c.decode ((c.write a).take k) = none := by
  refine c.decode_cut (List.take_prefix k _) fun he => ?_
  have hlen := congrArg List.length he
  rw [List.length_take] at hlen
  omega

/-- Read a number written in unary. -/
def readNat : Bytes → Option (Nat × Bytes)
  | [] => none
  | b :: bs =>
      if b = 0 then some (0, bs)
      else if b = 1 then (readNat bs).map fun p => (p.1 + 1, p.2)
      else none

/-- Numbers, in unary. -/
def nat : Codec Nat where
  write n := List.replicate n 1 ++ [0]
  read := readNat
  read_write n rest := by
    induction n with
    | zero => rfl
    | succ n ih =>
      rw [List.replicate_succ, List.cons_append, List.cons_append, readNat, if_neg (by decide),
        if_pos rfl, ih]
      rfl
  write_read bs := by
    induction bs with
    | nil => intro n rest h; cases h
    | cons b bs ih =>
      intro n rest h
      rw [readNat] at h
      split at h
      · rename_i hb
        cases h
        rw [hb]
        rfl
      · split at h
        · rename_i hb
          obtain ⟨p, hp, he⟩ := Option.map_eq_some_iff.mp h
          cases he
          rw [hb, ih p.1 p.2 hp]
          rfl
        · cases h

/-- Single bytes. -/
def byte : Codec UInt8 where
  write b := [b]
  read bs := match bs with
    | [] => none
    | b :: rest => some (b, rest)
  read_write _ _ := rfl
  write_read bs b rest h := by
    cases bs with
    | nil => cases h
    | cons c cs => cases h; rfl

/-- The only value of the unit type takes no bytes. -/
def unit : Codec Unit where
  write _ := []
  read bs := some ((), bs)
  read_write _ _ := rfl
  write_read _ _ _ h := by cases h; rfl

/-- Two values, one after the other. -/
def pair (c : Codec α) (d : Codec β) : Codec (α × β) where
  write p := c.write p.1 ++ d.write p.2
  read bs := (c.read bs).bind fun p => (d.read p.2).map fun q => ((p.1, q.1), q.2)
  read_write p rest := by
    rw [List.append_assoc, c.read_write, Option.bind_some, d.read_write]
    rfl
  write_read bs p rest h := by
    obtain ⟨x, hx, hx'⟩ := Option.bind_eq_some_iff.mp h
    obtain ⟨y, hy, he⟩ := Option.map_eq_some_iff.mp hx'
    cases he
    rw [c.write_read bs _ _ hx, d.write_read _ _ _ hy, List.append_assoc]

/-- A value of one of two types behind a tag. -/
def sum (c : Codec α) (d : Codec β) : Codec (α ⊕ β) where
  write
    | .inl a => 0 :: c.write a
    | .inr b => 1 :: d.write b
  read bs := match bs with
    | [] => none
    | t :: bs =>
        if t = 0 then (c.read bs).map fun p => (.inl p.1, p.2)
        else if t = 1 then (d.read bs).map fun p => (.inr p.1, p.2)
        else none
  read_write s rest := by
    cases s with
    | inl a => simp only [List.cons_append, if_true, c.read_write]; rfl
    | inr b =>
      simp only [List.cons_append]
      rw [if_neg (by decide), if_pos trivial, d.read_write]
      rfl
  write_read bs s rest h := by
    cases bs with
    | nil => cases h
    | cons t bs =>
      simp only at h
      split at h
      · rename_i ht
        obtain ⟨p, hp, he⟩ := Option.map_eq_some_iff.mp h
        cases he
        rw [ht, c.write_read bs _ _ hp]
        rfl
      · split at h
        · rename_i ht
          obtain ⟨p, hp, he⟩ := Option.map_eq_some_iff.mp h
          cases he
          rw [ht, d.write_read bs _ _ hp]
          rfl
        · cases h

/-- A type that embeds into one with a codec, when the values outside the image are refused. -/
def embed (c : Codec α) (into : β → α) (back : α → Option β) (hback : ∀ b, back (into b) = some b)
    (hinto : ∀ a b, back a = some b → into b = a) : Codec β where
  write b := c.write (into b)
  read bs := (c.read bs).bind fun p => (back p.1).map fun b => (b, p.2)
  read_write b rest := by
    rw [c.read_write, Option.bind_some, hback]
    rfl
  write_read bs b rest h := by
    obtain ⟨p, hp, hb⟩ := Option.bind_eq_some_iff.mp h
    obtain ⟨b', hb', he⟩ := Option.map_eq_some_iff.mp hb
    cases he
    rw [hinto _ _ hb']
    exact c.write_read bs _ _ hp

/-- A type in bijection with one that has a codec. -/
def iso (c : Codec α) (into : β → α) (back : α → β) (hback : ∀ b, back (into b) = b)
    (hinto : ∀ a, into (back a) = a) : Codec β :=
  c.embed into (fun a => some (back a)) (fun b => congrArg some (hback b))
    (fun a b h => by rw [← Option.some.inj h, hinto])

/-- An optional value behind a tag. -/
def option (c : Codec α) : Codec (Option α) :=
  (sum unit c).iso (fun o => match o with
      | none => .inl ()
      | some a => .inr a)
    (fun s => match s with
      | .inl _ => none
      | .inr a => some a)
    (fun o => by cases o <;> rfl) (fun s => by cases s <;> rfl)

/-- Read a given number of values. -/
def readList (c : Codec α) : Nat → Bytes → Option (List α × Bytes)
  | 0, bs => some ([], bs)
  | k + 1, bs => (c.read bs).bind fun p => (readList c k p.2).map fun q => (p.1 :: q.1, q.2)

/-- A list behind its length. -/
def list (c : Codec α) : Codec (List α) where
  write l := nat.write l.length ++ l.flatMap c.write
  read bs := (nat.read bs).bind fun p => readList c p.1 p.2
  read_write l rest := by
    rw [List.append_assoc, nat.read_write, Option.bind_some]
    induction l with
    | nil => rfl
    | cons a l ih =>
      simp only at ih
      simp only [List.length_cons, readList, List.flatMap_cons, List.append_assoc, c.read_write,
        Option.bind_some, ih]
      rfl
  write_read bs l rest h := by
    obtain ⟨p, hp, hl⟩ := Option.bind_eq_some_iff.mp h
    have key : ∀ k bs l rest, readList c k bs = some (l, rest) →
        l.length = k ∧ bs = l.flatMap c.write ++ rest := by
      intro k
      induction k with
      | zero => intro bs l rest h; cases h; exact ⟨rfl, rfl⟩
      | succ k ih =>
        intro bs l rest h
        obtain ⟨x, hx, hx'⟩ := Option.bind_eq_some_iff.mp h
        obtain ⟨y, hy, he⟩ := Option.map_eq_some_iff.mp hx'
        cases he
        obtain ⟨hlen, hbs⟩ := ih _ _ _ hy
        refine ⟨by rw [List.length_cons, hlen], ?_⟩
        rw [c.write_read bs _ _ hx, hbs, List.flatMap_cons, List.append_assoc]
    obtain ⟨hlen, hbs⟩ := key _ _ _ _ hl
    rw [nat.write_read bs _ _ hp, hbs, hlen, List.append_assoc]

/-- Characters, by their code points. -/
def char : Codec Char :=
  nat.embed Char.toNat (fun n => if (Char.ofNat n).toNat = n then some (Char.ofNat n) else none)
    (fun c => by simp)
    (fun n c h => by
      split at h
      · rename_i hn
        rw [← Option.some.inj h, hn]
      · cases h)

/-- Strings, by their characters. -/
def string : Codec String :=
  char.list.iso String.toList String.ofList (fun _ => String.ofList_toList)
    (fun _ => String.toList_ofList)

end Codec

end Basis
