import Mathlib

set_option autoImplicit false

/-! # Byte strings: fixed-width integers, variable-width lengths, readers

Little-endian integers of a given width (`leBytes`, `ofLeBytes`), base-128 numbers of
variable width (`varint`), and readers that consume a prefix of a byte string (`Reader`).
A reader *undoes* a writer (`Reader.Undoes`) when it gives back what was written and leaves
exactly what follows; `Undoes.seq` composes such pairs, so the round trip of a record is
assembled from those of its fields.
-/

/-- A byte string. -/
abbrev Bytes := List UInt8

namespace Bytes

/-! ## Little-endian integers -/

/-- The `n` low bytes of `v`, least significant byte first. -/
def leBytes : Nat → Nat → Bytes
  | 0, _ => []
  | n + 1, v => UInt8.ofNat (v % 256) :: leBytes n (v / 256)

/-- The number a byte string stands for, least significant byte first. -/
def ofLeBytes : Bytes → Nat
  | [] => 0
  | b :: bs => b.toNat + 256 * ofLeBytes bs

@[simp] theorem length_leBytes (n v : Nat) : (leBytes n v).length = n := by
  induction n generalizing v with
  | zero => rfl
  | succ n ih => simp [leBytes, ih]

theorem ofLeBytes_leBytes {n v : Nat} (hv : v < 256 ^ n) : ofLeBytes (leBytes n v) = v := by
  induction n generalizing v with
  | zero =>
      have h0 : v = 0 := by simpa using hv
      rw [h0]
      rfl
  | succ n ih =>
      have hdiv : v / 256 < 256 ^ n := by
        rw [Nat.div_lt_iff_lt_mul (by omega)]
        rwa [pow_succ] at hv
      have hbyte : (UInt8.ofNat (v % 256)).toNat = v % 256 := by
        rw [UInt8.toNat_ofNat']
        omega
      show (UInt8.ofNat (v % 256)).toNat + 256 * ofLeBytes (leBytes n (v / 256)) = v
      rw [ih hdiv, hbyte]
      omega

theorem ofLeBytes_lt (bs : Bytes) : ofLeBytes bs < 256 ^ bs.length := by
  induction bs with
  | nil => simp [ofLeBytes]
  | cons b bs ih =>
      have hb := b.toNat_lt
      have hp : 256 ^ (b :: bs).length = 256 * 256 ^ bs.length := by
        rw [List.length_cons, pow_succ]
        ring
      rw [hp]
      show b.toNat + 256 * ofLeBytes bs < _
      omega

theorem ofLeBytes_eq_zero_iff {bs : Bytes} : ofLeBytes bs = 0 ↔ ∀ b ∈ bs, b = 0 := by
  induction bs with
  | nil => simp [ofLeBytes]
  | cons b bs ih =>
      rw [List.forall_mem_cons, ← ih, ← UInt8.toNat_inj]
      show b.toNat + 256 * ofLeBytes bs = 0 ↔ b.toNat = 0 ∧ ofLeBytes bs = 0
      omega

theorem leBytes_ofLeBytes (bs : Bytes) : leBytes bs.length (ofLeBytes bs) = bs := by
  induction bs with
  | nil => rfl
  | cons b bs ih =>
      have hb := b.toNat_lt
      have hmod : (b.toNat + 256 * ofLeBytes bs) % 256 = b.toNat := by omega
      have hdiv : (b.toNat + 256 * ofLeBytes bs) / 256 = ofLeBytes bs := by omega
      show UInt8.ofNat ((b.toNat + 256 * ofLeBytes bs) % 256)
        :: leBytes bs.length ((b.toNat + 256 * ofLeBytes bs) / 256) = b :: bs
      rw [hmod, hdiv, ih, UInt8.ofNat_toNat]

/-! ## Readers -/

/-- A reader consumes a prefix of its input, or refuses it. -/
abbrev Reader (α : Type) := Bytes → Option (α × Bytes)

namespace Reader

variable {α β : Type}

/-- `p` gives back what `w` wrote, and leaves what follows it. -/
def Undoes (p : Reader α) (w : α → Bytes) : Prop :=
  ∀ a rest, p (w a ++ rest) = some (a, rest)

/-- Read with `p`, then with `q`. -/
def seq (p : Reader α) (q : Reader β) : Reader (α × β) := fun bs =>
  match p bs with
  | none => none
  | some (a, rest) =>
      match q rest with
      | none => none
      | some (b, rest) => some ((a, b), rest)

theorem Undoes.seq {p : Reader α} {q : Reader β} {w : α → Bytes} {u : β → Bytes}
    (hp : p.Undoes w) (hq : q.Undoes u) :
    (p.seq q).Undoes (fun x => w x.1 ++ u x.2) := by
  intro x rest
  unfold Reader.seq
  rw [List.append_assoc, hp x.1 (u x.2 ++ rest)]
  simp only [hq x.2 rest]

/-- Read the whole input: nothing may be left over. -/
def whole (p : Reader α) (bs : Bytes) : Option α :=
  match p bs with
  | some (a, []) => some a
  | _ => none

theorem Undoes.whole {p : Reader α} {w : α → Bytes} (hp : p.Undoes w) (a : α) :
    p.whole (w a) = some a := by
  have h := hp a []
  rw [List.append_nil] at h
  simp only [Reader.whole, h]

end Reader

/-- Exactly `n` bytes. -/
def takeN (n : Nat) : Reader (List.Vector UInt8 n) := fun bs =>
  if h : (bs.take n).length = n then some (⟨bs.take n, h⟩, bs.drop n) else none

theorem takeN_append {n : Nat} {bs : Bytes} (hn : bs.length = n) (rest : Bytes) :
    takeN n (bs ++ rest) = some (⟨bs, hn⟩, rest) := by
  have ht : (bs ++ rest).take n = bs := List.take_left' hn
  have hd : (bs ++ rest).drop n = rest := List.drop_left' hn
  unfold takeN
  rw [dif_pos (by rw [ht, hn]), hd]
  congr 2
  exact Subtype.ext ht

theorem takeN_undoes (n : Nat) : (takeN n).Undoes (fun v => v.toList) :=
  fun v rest => takeN_append v.toList_length rest

/-- A little-endian number of `n` bytes, made a value by `f`. -/
def readLe {α : Type} (n : Nat) (f : Nat → α) : Reader α := fun bs =>
  (takeN n bs).map fun r => (f (ofLeBytes r.1.toList), r.2)

theorem readLe_undoes {α : Type} {n : Nat} {f : Nat → α} {g : α → Nat}
    (hlt : ∀ a, g a < 256 ^ n) (hf : ∀ a, f (g a) = a) :
    (readLe n f).Undoes (fun a => leBytes n (g a)) := by
  intro a rest
  unfold readLe
  rw [takeN_append (length_leBytes n (g a)) rest]
  simp only [Option.map_some, List.Vector.toList, ofLeBytes_leBytes (hlt a), hf a]

/-! ## Base-128 numbers

Seven bits a byte, low bits first; every byte but the last has its high bit set. -/

/-- The base-128 form of `v`, which needs at most `fuel + 1` bytes. -/
def varintAux : Nat → Nat → Bytes
  | 0, v => [UInt8.ofNat v]
  | fuel + 1, v =>
      if v < 128 then [UInt8.ofNat v]
      else UInt8.ofNat (v % 128 + 128) :: varintAux fuel (v / 128)

def varint (v : Nat) : Bytes := varintAux v v

/-- Read a base-128 number. -/
def readVarint : Reader Nat
  | [] => none
  | b :: bs =>
      if b.toNat < 128 then some (b.toNat, bs)
      else
        match readVarint bs with
        | none => none
        | some (v, rest) => some (b.toNat - 128 + 128 * v, rest)

theorem readVarint_small {v : Nat} (hv : v < 128) (rest : Bytes) :
    readVarint (UInt8.ofNat v :: rest) = some (v, rest) := by
  have hb : (UInt8.ofNat v).toNat = v := by
    rw [UInt8.toNat_ofNat']
    omega
  simp only [readVarint, hb, if_pos hv]

theorem readVarint_varintAux (fuel v : Nat) (hv : v ≤ fuel) (rest : Bytes) :
    readVarint (varintAux fuel v ++ rest) = some (v, rest) := by
  induction fuel generalizing v with
  | zero => exact readVarint_small (by omega) rest
  | succ fuel ih =>
      unfold varintAux
      by_cases h : v < 128
      · rw [if_pos h]
        exact readVarint_small h rest
      · -- one byte with its high bit set, then the rest of the number
        rw [if_neg h]
        have hb : (UInt8.ofNat (v % 128 + 128)).toNat = v % 128 + 128 := by
          rw [UInt8.toNat_ofNat']
          omega
        have hr := ih (v / 128) (by omega)
        simp only [List.cons_append, readVarint, hb, hr]
        rw [if_neg (by omega)]
        congr 2
        omega

theorem readVarint_undoes : Reader.Undoes readVarint varint :=
  fun v rest => readVarint_varintAux v v (Nat.le_refl v) rest

/-- A byte string with its length in front. -/
def readBlock : Reader Bytes := fun bs =>
  match readVarint bs with
  | none => none
  | some (n, rest) => (takeN n rest).map fun r => (r.1.toList, r.2)

theorem readBlock_undoes : readBlock.Undoes (fun bs => varint bs.length ++ bs) := by
  intro bs rest
  have h := takeN_append (rfl : bs.length = bs.length) rest
  unfold readBlock
  rw [List.append_assoc, readVarint_undoes bs.length (bs ++ rest)]
  simp only [h, Option.map_some, List.Vector.toList]

/-- Exactly `n` bytes with their number in front: any other length is refused. -/
def readArray (n : Nat) : Reader (List.Vector UInt8 n) := fun bs =>
  match readVarint bs with
  | none => none
  | some (len, rest) => if len = n then takeN n rest else none

theorem readArray_undoes (n : Nat) : (readArray n).Undoes (fun v => varint n ++ v.toList) := by
  intro v rest
  unfold readArray
  rw [List.append_assoc, readVarint_undoes n (v.toList ++ rest)]
  simp only [if_true]
  exact takeN_undoes n v rest

end Bytes
