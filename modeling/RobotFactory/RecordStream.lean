import Mathlib.Data.List.TakeWhile
import Mathlib.Tactic

/-!
# Streams of fixed-size records

A codec writes every value as a block of the same positive number of cells and
reads it back. A stream of records is the concatenation of their blocks. The
reader takes one block at a time and stops at the first block that is too short
or that an acceptance test rejects, so what it returns is decided by the longest
accepted sequence of whole records at the front of the stream.
-/
namespace RobotFactory.RecordStream

/-- Fixed-size encoding of `α` in cells of type `β`, with its round trip. -/
structure Codec (β α : Type*) where
  size : ℕ
  encode : α → List β
  decode : List β → α
  size_pos : 0 < size
  length_encode : ∀ a, (encode a).length = size
  decode_encode : ∀ a, decode (encode a) = a

/-- Replace the cells from `pos` on by those of `patch`. -/
def overwrite {β : Type*} (bs : List β) (pos : ℕ) (patch : List β) : List β :=
  bs.take pos ++ patch ++ bs.drop (pos + patch.length)

@[simp] theorem length_overwrite {β : Type*} (bs : List β) (pos : ℕ) (patch : List β) :
    (overwrite bs pos patch).length = max bs.length (min pos bs.length + patch.length) := by
  simp only [overwrite, List.length_append, List.length_take, List.length_drop]
  omega

@[simp] theorem overwrite_nil {β : Type*} (bs : List β) (pos : ℕ) : overwrite bs pos [] = bs := by
  simp [overwrite]

theorem overwrite_overwrite {β : Type*} {bs : List β} {pos : ℕ} (p q : List β)
    (h : pos ≤ bs.length) :
    overwrite (overwrite bs pos p) (pos + p.length) q = overwrite bs pos (p ++ q) := by
  have hfront : (bs.take pos ++ p).length = pos + p.length := by simp [h]
  rw [overwrite, overwrite, overwrite, List.take_left' hfront, List.drop_append, hfront,
    List.drop_of_length_le (by omega), List.nil_append, List.drop_drop, List.length_append]
  simp [Nat.add_assoc]

namespace Codec

def pair {β α γ : Type*} (c : Codec β α) (d : Codec β γ) : Codec β (α × γ) where
  size := c.size + d.size
  encode x := c.encode x.1 ++ d.encode x.2
  decode bs := (c.decode (bs.take c.size), d.decode (bs.drop c.size))
  size_pos := Nat.add_pos_left c.size_pos _
  length_encode x := by simp [c.length_encode, d.length_encode]
  decode_encode x := by
    rw [← c.length_encode x.1, List.take_left, List.drop_left, c.decode_encode, d.decode_encode]

/-- Transport a codec to a type that is a retract of the encoded one. -/
def retract {β α γ : Type*} (c : Codec β α) (toCode : γ → α) (ofCode : α → γ)
    (h : ∀ x, ofCode (toCode x) = x) : Codec β γ where
  size := c.size
  encode x := c.encode (toCode x)
  decode bs := ofCode (c.decode bs)
  size_pos := c.size_pos
  length_encode x := c.length_encode _
  decode_encode x := by rw [c.decode_encode, h]

/-- Every block of the right size is the encoding of a value. -/
def Onto {β α : Type*} (c : Codec β α) : Prop :=
  ∀ bs, bs.length = c.size → c.encode (c.decode bs) = bs

theorem Onto.pair {β α γ : Type*} {c : Codec β α} {d : Codec β γ} (hc : c.Onto) (hd : d.Onto) :
    (c.pair d).Onto := by
  intro bs h
  have hlen : bs.length = c.size + d.size := h
  have hfirst := hc (bs.take c.size) (by simp [hlen])
  have hsecond := hd (bs.drop c.size) (by simp [hlen])
  change c.encode (c.decode (bs.take c.size)) ++ d.encode (d.decode (bs.drop c.size)) = bs
  rw [hfirst, hsecond, List.take_append_drop]

theorem Onto.retract {β α γ : Type*} {c : Codec β α} (hc : c.Onto) {toCode : γ → α}
    {ofCode : α → γ} (h : ∀ x, ofCode (toCode x) = x) (h' : ∀ a, toCode (ofCode a) = a) :
    (c.retract toCode ofCode h).Onto := by
  intro bs hbs
  change c.encode (toCode (ofCode (c.decode bs))) = bs
  rw [h', hc bs hbs]

/-- A block of which the end is missing can be filled up so that it is not the
encoding of `x`. -/
theorem Onto.exists_fill_ne {β α : Type*} [Nontrivial β] {c : Codec β α} (hc : c.Onto) (x : α)
    {got : List β} (hgot : got.length < c.size) :
    ∃ b, c.decode (got ++ List.replicate (c.size - got.length) b) ≠ x := by
  obtain ⟨b, b', hne⟩ := exists_pair_ne β
  by_contra hall
  push Not at hall
  have hfill : ∀ b, got ++ List.replicate (c.size - got.length) b = c.encode x := by
    intro b
    rw [← hall b, hc]
    simp
    omega
  have heq := List.append_cancel_left ((hfill b).trans (hfill b').symm)
  rw [List.replicate_right_inj (by omega)] at heq
  exact hne heq

def encodeAll {β α : Type*} (c : Codec β α) (xs : List α) : List β := xs.flatMap c.encode

@[simp] theorem encodeAll_nil {β α : Type*} (c : Codec β α) : c.encodeAll [] = [] := rfl

@[simp] theorem encodeAll_cons {β α : Type*} (c : Codec β α) (x : α) (xs : List α) :
    c.encodeAll (x :: xs) = c.encode x ++ c.encodeAll xs := rfl

@[simp] theorem encodeAll_append {β α : Type*} (c : Codec β α) (xs ys : List α) :
    c.encodeAll (xs ++ ys) = c.encodeAll xs ++ c.encodeAll ys := by simp [encodeAll]

@[simp] theorem length_encodeAll {β α : Type*} (c : Codec β α) (xs : List α) :
    (c.encodeAll xs).length = c.size * xs.length := by
  induction xs with
  | nil => simp
  | cons x xs ih => simp [ih, c.length_encode]; ring

theorem take_encodeAll {β α : Type*} (c : Codec β α) (xs : List α) (k : ℕ) :
    (c.encodeAll xs).take (c.size * k) = c.encodeAll (xs.take k) := by
  induction k generalizing xs with
  | zero => simp
  | succ k ih =>
    cases xs with
    | nil => simp
    | cons x xs =>
      have hsplit : c.size * (k + 1) = (c.encode x).length + c.size * k := by
        rw [c.length_encode]; ring
      rw [encodeAll_cons, hsplit, List.take_length_add_append, ih, List.take_succ_cons,
        encodeAll_cons]

/-- Cutting a stream anywhere keeps the whole records in front of the cut and
fewer cells than a record of the next one. -/
theorem take_encodeAll_torn {β α : Type*} (c : Codec β α) (xs : List α) (m : ℕ) :
    ∃ torn : List β, torn.length < c.size ∧
      (c.encodeAll xs).take m = c.encodeAll (xs.take (m / c.size)) ++ torn := by
  refine ⟨((c.encodeAll xs).take m).drop (c.size * (m / c.size)), ?_, ?_⟩
  · have hmod := Nat.mod_lt m c.size_pos
    have hdiv := Nat.div_add_mod m c.size
    simp only [List.length_drop, List.length_take]
    omega
  · have hle : c.size * (m / c.size) ≤ m := Nat.mul_div_le m c.size
    conv_lhs => rw [← List.take_append_drop (c.size * (m / c.size)) ((c.encodeAll xs).take m)]
    rw [List.take_take, Nat.min_eq_left hle, take_encodeAll]

theorem overwrite_encodeAll {β α : Type*} (c : Codec β α) {xs : List α} {j : ℕ} (hj : j < xs.length)
    (x : α) : overwrite (c.encodeAll xs) (c.size * j) (c.encode x) =
      c.encodeAll (xs.take j ++ x :: xs.drop (j + 1)) := by
  have hdrop : (c.encodeAll xs).drop (c.size * j + (c.encode x).length) =
      c.encodeAll (xs.drop (j + 1)) := by
    have hsplit := c.encodeAll_append (xs.take (j + 1)) (xs.drop (j + 1))
    have hlen : (c.encodeAll (xs.take (j + 1))).length = c.size * j + (c.encode x).length := by
      rw [length_encodeAll, List.length_take, Nat.min_eq_left hj, c.length_encode]
      exact Nat.mul_succ _ _
    rw [List.take_append_drop] at hsplit
    rw [hsplit, ← hlen, List.drop_left]
  rw [overwrite, take_encodeAll, hdrop, encodeAll_append, encodeAll_cons, List.append_assoc]

/-- Read one record: its value and the rest of the stream, if enough cells are left. -/
def next {β α : Type*} (c : Codec β α) (bs : List β) : Option (α × List β) :=
  if c.size ≤ bs.length then some (c.decode (bs.take c.size), bs.drop c.size) else none

theorem next_encode_append {β α : Type*} (c : Codec β α) (x : α) (bs : List β) :
    c.next (c.encode x ++ bs) = some (x, bs) := by
  have hlen := c.length_encode x
  rw [next, if_pos (by simp [hlen]), ← hlen, List.take_left, List.drop_left, c.decode_encode]

theorem next_eq_none_iff {β α : Type*} (c : Codec β α) (bs : List β) :
    c.next bs = none ↔ bs.length < c.size := by
  rw [next]
  split_ifs with h <;> simp <;> omega

theorem length_of_next {β α : Type*} {c : Codec β α} {bs rest : List β} {x : α}
    (h : c.next bs = some (x, rest)) : bs.length = c.size + rest.length := by
  rw [next] at h
  split_ifs at h with hle
  obtain ⟨-, rfl⟩ := Prod.mk.inj (Option.some.inj h)
  rw [List.length_drop]
  omega

/-- The records in front of the first block that is short or rejected. -/
def readWhile {β α : Type*} (c : Codec β α) (accept : α → Bool) (bs : List β) : List α :=
  match _h : c.next bs with
  | none => []
  | some (x, rest) => if accept x then x :: readWhile c accept rest else []
termination_by bs.length
decreasing_by have := length_of_next _h; have := c.size_pos; omega

theorem readWhile_of_none {β α : Type*} {c : Codec β α} {accept : α → Bool} {bs : List β}
    (h : c.next bs = none) : c.readWhile accept bs = [] := by
  rw [readWhile]
  split
  · rfl
  · simp_all

theorem readWhile_of_some {β α : Type*} {c : Codec β α} {accept : α → Bool} {bs rest : List β}
    {x : α} (h : c.next bs = some (x, rest)) :
    c.readWhile accept bs = if accept x then x :: c.readWhile accept rest else [] := by
  rw [readWhile]
  split
  · simp_all
  · rename_i y rest' hy
    rw [h] at hy
    obtain ⟨rfl, rfl⟩ := Prod.mk.inj (Option.some.inj hy)
    rfl

theorem readWhile_of_length_lt {β α : Type*} {c : Codec β α} {accept : α → Bool} {bs : List β}
    (h : bs.length < c.size) : c.readWhile accept bs = [] :=
  readWhile_of_none ((c.next_eq_none_iff bs).mpr h)

theorem next_append {β α : Type*} {c : Codec β α} {bs rest : List β} {x : α}
    (h : c.next bs = some (x, rest)) (t : List β) : c.next (bs ++ t) = some (x, rest ++ t) := by
  unfold next at h ⊢
  split_ifs at h with hle
  obtain ⟨rfl, rfl⟩ := Prod.mk.inj (Option.some.inj h)
  rw [if_pos (by rw [List.length_append]; omega), List.take_append_of_le_length hle,
    List.drop_append_of_le_length hle]

theorem readWhile_append {β α : Type*} (c : Codec β α) (accept : α → Bool) {bs : List β}
    (h : c.size * (c.readWhile accept bs).length = bs.length) (t : List β) :
    c.readWhile accept (bs ++ t) = c.readWhile accept bs ++ c.readWhile accept t := by
  induction bs using readWhile.induct c accept with
  | case1 bs hnext =>
    rw [readWhile_of_none hnext] at h ⊢
    rw [List.eq_nil_of_length_eq_zero h.symm, List.nil_append, List.nil_append]
  | case2 bs x rest hnext hx ih =>
    have hlen := length_of_next hnext
    rw [readWhile_of_some hnext, if_pos hx] at h ⊢
    rw [List.length_cons, Nat.mul_succ] at h
    rw [readWhile_of_some (next_append hnext t), if_pos hx, ih (by omega), List.cons_append]
  | case3 bs x rest hnext hx =>
    have hlen := length_of_next hnext
    have hpos := c.size_pos
    rw [readWhile_of_some hnext, if_neg hx, List.length_nil, Nat.mul_zero] at h
    omega

/-- What is read of a stream that is cut anywhere was read of the whole stream. -/
theorem readWhile_prefix {β α : Type*} (c : Codec β α) (accept : α → Bool) {bs cs : List β}
    (h : bs <+: cs) : c.readWhile accept bs <+: c.readWhile accept cs := by
  obtain ⟨t, rfl⟩ := h
  induction bs using readWhile.induct c accept with
  | case1 bs hnext =>
    rw [readWhile_of_none hnext]
    exact List.nil_prefix
  | case2 bs x rest hnext hx ih =>
    rw [readWhile_of_some hnext, readWhile_of_some (next_append hnext t), if_pos hx, if_pos hx]
    exact List.prefix_cons_inj x |>.mpr ih
  | case3 bs x rest hnext hx =>
    rw [readWhile_of_some hnext, if_neg hx]
    exact List.nil_prefix

/-- Accepted records at the front of a stream are read, then what follows. -/
theorem readWhile_encodeAll_append {β α : Type*} (c : Codec β α) (accept : α → Bool) (xs : List α)
    (hxs : ∀ x ∈ xs, accept x = true) (bs : List β) :
    c.readWhile accept (c.encodeAll xs ++ bs) = xs ++ c.readWhile accept bs := by
  induction xs with
  | nil => simp
  | cons x xs ih =>
    rw [encodeAll_cons, List.append_assoc, readWhile_of_some (next_encode_append c x _),
      if_pos (hxs x (by simp)), ih (fun y hy => hxs y (by simp [hy])), List.cons_append]

/-- A torn record behind whole ones is not read. -/
theorem readWhile_encodeAll_torn {β α : Type*} (c : Codec β α) (accept : α → Bool) (xs : List α)
    (hxs : ∀ x ∈ xs, accept x = true) {torn : List β} (htorn : torn.length < c.size) :
    c.readWhile accept (c.encodeAll xs ++ torn) = xs := by
  rw [readWhile_encodeAll_append c accept xs hxs, readWhile_of_length_lt htorn, List.append_nil]

theorem readWhile_encodeAll {β α : Type*} (c : Codec β α) (accept : α → Bool) (xs : List α)
    (hxs : ∀ x ∈ xs, accept x = true) : c.readWhile accept (c.encodeAll xs) = xs := by
  have htorn := readWhile_encodeAll_torn c accept xs hxs
    (show ([] : List β).length < c.size from c.size_pos)
  rwa [List.append_nil] at htorn

/-- Reading a stream of accepted records cut to `m` cells. -/
theorem readWhile_take {β α : Type*} (c : Codec β α) (accept : α → Bool) (xs : List α)
    (hxs : ∀ x ∈ xs, accept x = true) (m : ℕ) :
    c.readWhile accept ((c.encodeAll xs).take m) = xs.take (m / c.size) := by
  obtain ⟨torn, htorn, heq⟩ := take_encodeAll_torn c xs m
  rw [heq, readWhile_encodeAll_torn c accept _ (fun x hx => hxs x (List.mem_of_mem_take hx)) htorn]

/-- Reading stops at the first rejected record, also in a stream cut to `m` cells. -/
theorem readWhile_take_reject {β α : Type*} (c : Codec β α) (accept : α → Bool) (xs ys : List α)
    (bad : α) (hxs : ∀ x ∈ xs, accept x = true) (hbad : accept bad = false) (m : ℕ) :
    c.readWhile accept ((c.encodeAll (xs ++ bad :: ys)).take m) =
      xs.take (min xs.length (m / c.size)) := by
  obtain ⟨torn, htorn, heq⟩ := take_encodeAll_torn c (xs ++ bad :: ys) m
  rw [heq]
  by_cases hm : m / c.size ≤ xs.length
  · rw [List.take_append_of_le_length hm, Nat.min_eq_right hm,
      readWhile_encodeAll_torn c accept _ (fun x hx => hxs x (List.mem_of_mem_take hx)) htorn]
  · obtain ⟨k, hk⟩ : ∃ k, m / c.size - xs.length = k + 1 := ⟨m / c.size - xs.length - 1, by omega⟩
    have htake : (xs ++ bad :: ys).take (m / c.size) = xs ++ bad :: ys.take k := by
      rw [List.take_append, List.take_of_length_le (by omega), hk, List.take_succ_cons]
    rw [htake, encodeAll_append, encodeAll_cons, List.append_assoc, List.append_assoc,
      readWhile_encodeAll_append c accept xs hxs, readWhile_of_some (next_encode_append c bad _),
      hbad, Nat.min_eq_left (by omega), List.take_length]
    simp

/-- The records read do not need more cells than the stream has. -/
theorem size_mul_length_readWhile_le {β α : Type*} (c : Codec β α) (accept : α → Bool)
    (bs : List β) : c.size * (c.readWhile accept bs).length ≤ bs.length := by
  induction bs using readWhile.induct c accept with
  | case1 bs h => simp [readWhile_of_none h]
  | case2 bs x rest h hx ih =>
    have hlen := length_of_next h
    rw [readWhile_of_some h, if_pos hx, List.length_cons, Nat.mul_add, Nat.mul_one]
    omega
  | case3 bs x rest h hx => simp [readWhile_of_some h, hx]

end Codec

/-- The `w` base-256 digits of `n`, least significant first. -/
def littleEndian : ℕ → ℕ → List UInt8
  | 0, _ => []
  | w + 1, n => UInt8.ofNat n :: littleEndian w (n / 256)

/-- The number with the given base-256 digits. -/
def ofLittleEndian : List UInt8 → ℕ
  | [] => 0
  | b :: bs => b.toNat + 256 * ofLittleEndian bs

@[simp] theorem length_littleEndian (w n : ℕ) : (littleEndian w n).length = w := by
  induction w generalizing n with
  | zero => rfl
  | succ w ih => simp [littleEndian, ih]

theorem ofLittleEndian_littleEndian (w n : ℕ) (h : n < 256 ^ w) :
    ofLittleEndian (littleEndian w n) = n := by
  induction w generalizing n with
  | zero =>
    rw [pow_zero] at h
    simp only [littleEndian, ofLittleEndian]
    omega
  | succ w ih =>
    have hdiv : n / 256 < 256 ^ w := by
      rw [Nat.div_lt_iff_lt_mul (by decide)]
      simpa [pow_succ] using h
    simp only [littleEndian, ofLittleEndian, ih _ hdiv, UInt8.toNat_ofNat']
    omega

theorem ofLittleEndian_lt (bs : List UInt8) : ofLittleEndian bs < 256 ^ bs.length := by
  induction bs with
  | nil => simp [ofLittleEndian]
  | cons b bs ih =>
    have hb := b.toNat_lt
    rw [ofLittleEndian, List.length_cons, pow_succ]
    omega

theorem littleEndian_ofLittleEndian (bs : List UInt8) :
    littleEndian bs.length (ofLittleEndian bs) = bs := by
  induction bs with
  | nil => rfl
  | cons b bs ih =>
    have hb := b.toNat_lt
    have hdigit : UInt8.ofNat (b.toNat + 256 * ofLittleEndian bs) = b := by
      apply UInt8.toNat_inj.mp
      rw [UInt8.toNat_ofNat']
      omega
    have hrest : (b.toNat + 256 * ofLittleEndian bs) / 256 = ofLittleEndian bs := by omega
    rw [ofLittleEndian, List.length_cons, littleEndian, hdigit, hrest, ih]

/-- A 32-bit word in memory, least significant byte first. -/
def uint32Codec : Codec UInt8 UInt32 where
  size := 4
  encode x := littleEndian 4 x.toNat
  decode bs := UInt32.ofNat (ofLittleEndian bs)
  size_pos := by decide
  length_encode x := length_littleEndian 4 _
  decode_encode x := by
    rw [ofLittleEndian_littleEndian 4 _ (by simpa using x.toNat_lt), UInt32.ofNat_toNat]

/-- A signed 32-bit word in memory, in two's complement. -/
def int32Codec : Codec UInt8 Int32 :=
  uint32Codec.retract Int32.toUInt32 UInt32.toInt32 (fun x => by simp)

theorem uint32Codec_onto : uint32Codec.Onto := by
  intro bs h
  have hlen : bs.length = 4 := h
  have hlt := ofLittleEndian_lt bs
  rw [hlen] at hlt
  change littleEndian 4 (UInt32.ofNat (ofLittleEndian bs)).toNat = bs
  rw [UInt32.toNat_ofNat', Nat.mod_eq_of_lt (by omega), ← hlen, littleEndian_ofLittleEndian]

theorem int32Codec_onto : int32Codec.Onto :=
  uint32Codec_onto.retract (fun x => by simp) (fun x => by simp)

end RobotFactory.RecordStream
