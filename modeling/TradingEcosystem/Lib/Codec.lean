import Mathlib.Algebra.Group.Nat.Defs
import Mathlib.Data.List.Basic

/-!
# Fixed-width binary codecs

A `Codec α` writes a value of `α` as a fixed number of bytes and reads it back; that reading undoes
writing is a field, so every codec is correct where it is built.  Integers are little-endian, and a
packed structure is the product of the codecs of its fields, in the order of the declaration, seen
through the constructor (`prod` and `map`).

A stream is one value after the other.  `chunks` reads the values that are complete at the front of
a buffer and returns what is left, and `chunks_encodeAll` is the round trip: whatever is left over
at the end, the values come back.
-/

set_option autoImplicit false

/-- Values of `α` as blocks of `size` bytes. -/
structure Codec (α : Type*) where
  size : ℕ
  encode : α → List UInt8
  decode : List UInt8 → α
  /-- Every value takes the same room. -/
  length_encode : ∀ a, (encode a).length = size
  /-- Reading undoes writing. -/
  decode_encode : ∀ a, decode (encode a) = a

namespace Codec

variable {α β : Type*}

theorem encode_injective (c : Codec α) : Function.Injective c.encode :=
  Function.LeftInverse.injective c.decode_encode

/-! ## Little-endian integers -/

/-- The `k` low bytes of a number, the lowest first. -/
def toBytes : ℕ → ℕ → List UInt8
  | 0, _ => []
  | k + 1, n => UInt8.ofNat (n % 256) :: toBytes k (n / 256)

/-- The number some bytes stand for, the lowest first. -/
def ofBytes : List UInt8 → ℕ
  | [] => 0
  | b :: bs => b.toNat + 256 * ofBytes bs

theorem length_toBytes (k n : ℕ) : (toBytes k n).length = k := by
  induction k generalizing n with
  | zero => rfl
  | succ k ih => rw [toBytes, List.length_cons, ih]

theorem ofBytes_toBytes {k n : ℕ} (h : n < 256 ^ k) : ofBytes (toBytes k n) = n := by
  induction k generalizing n with
  | zero => simpa [toBytes, ofBytes] using (Nat.lt_one_iff.1 h).symm
  | succ k ih =>
    have hdiv : n / 256 < 256 ^ k := by
      rw [Nat.pow_succ, Nat.mul_comm] at h
      exact Nat.div_lt_of_lt_mul h
    have hmod : (UInt8.ofNat (n % 256)).toNat = n % 256 :=
      UInt8.toNat_ofNat_of_lt (Nat.mod_lt n (by decide))
    rw [toBytes, ofBytes, ih hdiv, hmod]
    omega

def u8 : Codec UInt8 where
  size := 1
  encode := fun b => [b]
  decode := fun l => l.headD 0
  length_encode := fun _ => rfl
  decode_encode := fun _ => rfl

def u32 : Codec UInt32 where
  size := 4
  encode := fun n => toBytes 4 n.toNat
  decode := fun l => UInt32.ofNat (ofBytes l)
  length_encode := fun n => length_toBytes 4 n.toNat
  decode_encode := fun n => by
    rw [ofBytes_toBytes n.toNat_lt, UInt32.ofNat_toNat]

def u64 : Codec UInt64 where
  size := 8
  encode := fun n => toBytes 8 n.toNat
  decode := fun l => UInt64.ofNat (ofBytes l)
  length_encode := fun n => length_toBytes 8 n.toNat
  decode_encode := fun n => by
    rw [ofBytes_toBytes n.toNat_lt, UInt64.ofNat_toNat]

/-! ## Packed structures -/

/-- One value after the other, without padding. -/
def prod (c : Codec α) (d : Codec β) : Codec (α × β) where
  size := c.size + d.size
  encode := fun x => c.encode x.1 ++ d.encode x.2
  decode := fun l => (c.decode (l.take c.size), d.decode (l.drop c.size))
  length_encode := fun x => by rw [List.length_append, c.length_encode, d.length_encode]
  decode_encode := fun x => by
    rw [List.take_left' (c.length_encode x.1), List.drop_left' (c.length_encode x.1),
      c.decode_encode, d.decode_encode]

/-- The bytes of a value are those of what it is made of. -/
def map (c : Codec α) (f : β → α) (g : α → β) (h : ∀ b, g (f b) = b) : Codec β where
  size := c.size
  encode := fun b => c.encode (f b)
  decode := fun l => g (c.decode l)
  length_encode := fun b => c.length_encode (f b)
  decode_encode := fun b => by rw [c.decode_encode, h]

/-! ## Streams -/

/-- The values one after the other. -/
def encodeAll (c : Codec α) (l : List α) : List UInt8 := l.flatMap c.encode

theorem encodeAll_cons (c : Codec α) (a : α) (l : List α) :
    c.encodeAll (a :: l) = c.encode a ++ c.encodeAll l := rfl

theorem length_encodeAll (c : Codec α) (l : List α) :
    (c.encodeAll l).length = l.length * c.size := by
  induction l with
  | nil => simp [encodeAll]
  | cons a l ih =>
    rw [encodeAll_cons, List.length_append, ih, c.length_encode, List.length_cons, Nat.succ_mul,
      Nat.add_comm]

/-- A loop over a buffer that reads a value as long as a complete one is there. -/
def chunksLoop (c : Codec α) : ℕ → List UInt8 → List α × List UInt8
  | 0, buffer => ([], buffer)
  | fuel + 1, buffer =>
    if c.size ≤ buffer.length then
      let (values, rest) := c.chunksLoop fuel (buffer.drop c.size)
      (c.decode (buffer.take c.size) :: values, rest)
    else ([], buffer)

/-- The complete values at the front of a buffer, and the bytes that are left. -/
def chunks (c : Codec α) (buffer : List UInt8) : List α × List UInt8 :=
  c.chunksLoop buffer.length buffer

theorem chunksLoop_encodeAll (c : Codec α) (l : List α) {rest : List UInt8}
    (hrest : rest.length < c.size) {fuel : ℕ} (hfuel : l.length ≤ fuel) :
    c.chunksLoop fuel (c.encodeAll l ++ rest) = (l, rest) := by
  induction l generalizing fuel with
  | nil =>
    cases fuel with
    | zero => rfl
    | succ fuel => rw [chunksLoop, if_neg (by simpa [encodeAll] using hrest)]; rfl
  | cons a l ih =>
    obtain ⟨fuel, rfl⟩ : ∃ n, fuel = n + 1 := ⟨fuel - 1, by rw [List.length_cons] at hfuel; omega⟩
    have hlen : c.size ≤ (c.encodeAll (a :: l) ++ rest).length := by
      rw [List.length_append, length_encodeAll, List.length_cons, Nat.succ_mul]
      omega
    rw [chunksLoop, if_pos hlen, encodeAll_cons, List.append_assoc,
      List.take_left' (c.length_encode a), List.drop_left' (c.length_encode a),
      ih (Nat.le_of_succ_le_succ hfuel), c.decode_encode]

/-- **Round trip of a stream**, with an incomplete value behind it or none. -/
theorem chunks_encodeAll (c : Codec α) (l : List α) {rest : List UInt8}
    (hrest : rest.length < c.size) : c.chunks (c.encodeAll l ++ rest) = (l, rest) := by
  refine c.chunksLoop_encodeAll l hrest ?_
  rw [List.length_append, length_encodeAll]
  have hle := Nat.le_mul_of_pos_right l.length (Nat.zero_lt_of_lt hrest)
  omega

/-- With nothing behind the values. -/
theorem chunks_encodeAll_nil (c : Codec α) (hpos : 0 < c.size) (l : List α) :
    c.chunks (c.encodeAll l) = (l, []) := by
  have hnil : ([] : List UInt8).length < c.size := hpos
  have hchunks := c.chunks_encodeAll l hnil
  rwa [List.append_nil] at hchunks

/-! ### Streams in parts -/

theorem chunksLoop_fuel (c : Codec α) (hpos : 0 < c.size) (fuel fuel' : ℕ) {buffer : List UInt8}
    (h : buffer.length ≤ fuel) (h' : buffer.length ≤ fuel') :
    c.chunksLoop fuel buffer = c.chunksLoop fuel' buffer := by
  induction fuel generalizing fuel' buffer with
  | zero =>
    cases fuel' with
    | zero => rfl
    | succ fuel' => rw [chunksLoop, chunksLoop, if_neg (by omega)]
  | succ fuel ih =>
    cases fuel' with
    | zero => rw [chunksLoop, chunksLoop, if_neg (by omega)]
    | succ fuel' =>
      rw [chunksLoop, chunksLoop]
      split
      · have hlen : (buffer.drop c.size).length = buffer.length - c.size := List.length_drop
        rw [ih fuel' (by omega) (by omega)]
      · rfl

/-- Bytes that are not yet a value stay where they are. -/
theorem chunks_of_lt (c : Codec α) {buffer : List UInt8} (h : buffer.length < c.size) :
    c.chunks buffer = ([], buffer) := by
  rw [chunks]
  cases buffer.length with
  | zero => rfl
  | succ n => rw [chunksLoop, if_neg (Nat.not_le.2 h)]

/-- The first block is the first value. -/
theorem chunks_append (c : Codec α) (hpos : 0 < c.size) {block : List UInt8}
    (hblock : block.length = c.size) (rest : List UInt8) :
    c.chunks (block ++ rest) = (c.decode block :: (c.chunks rest).1, (c.chunks rest).2) := by
  have hlen : (block ++ rest).length = c.size + rest.length := by rw [List.length_append, hblock]
  rw [chunks, chunksLoop_fuel c hpos _ (c.size + rest.length + 1) (Nat.le_refl _) (by omega),
    chunksLoop, if_pos (by omega), List.take_left' hblock, List.drop_left' hblock,
    chunksLoop_fuel c hpos _ rest.length (by omega) (Nat.le_refl _)]
  rfl

/-- Where a value is complete, it is the first one. -/
theorem chunks_of_le (c : Codec α) (hpos : 0 < c.size) {buffer : List UInt8}
    (h : c.size ≤ buffer.length) : c.chunks buffer =
      (c.decode (buffer.take c.size) :: (c.chunks (buffer.drop c.size)).1,
        (c.chunks (buffer.drop c.size)).2) := by
  have hsplit := c.chunks_append hpos (List.length_take_of_le h) (buffer.drop c.size)
  rwa [List.take_append_drop] at hsplit

/-- **A stream in pieces**: what the first piece leaves is read with the second. -/
theorem chunks_append_bytes (c : Codec α) (hpos : 0 < c.size) (buffer bytes : List UInt8) :
    c.chunks (buffer ++ bytes) =
      ((c.chunks buffer).1 ++ (c.chunks ((c.chunks buffer).2 ++ bytes)).1,
        (c.chunks ((c.chunks buffer).2 ++ bytes)).2) := by
  induction hn : buffer.length using Nat.strongRecOn generalizing buffer with
  | ind n ih =>
    rcases Nat.lt_or_ge buffer.length c.size with hlt | hge
    · rw [c.chunks_of_lt hlt, List.nil_append]
    · have hlen : c.size ≤ (buffer ++ bytes).length := by
        rw [List.length_append]
        omega
      have hrest := ih _ (by rw [List.length_drop]; omega) (buffer.drop c.size) rfl
      rw [c.chunks_of_le hpos hlen, c.chunks_of_le hpos hge, List.take_append_of_le_length hge,
        List.drop_append_of_le_length hge, hrest, List.cons_append]

/-- What is left is less than a value. -/
theorem length_chunks_lt (c : Codec α) (hpos : 0 < c.size) (buffer : List UInt8) :
    (c.chunks buffer).2.length < c.size := by
  induction hn : buffer.length using Nat.strongRecOn generalizing buffer with
  | ind n ih =>
    rcases Nat.lt_or_ge buffer.length c.size with hlt | hge
    · rwa [c.chunks_of_lt hlt]
    · rw [c.chunks_of_le hpos hge]
      exact ih _ (by rw [List.length_drop]; omega) _ rfl

/-- The values and what is left are all of the bytes. -/
theorem length_chunks (c : Codec α) (hpos : 0 < c.size) (buffer : List UInt8) :
    c.size * (c.chunks buffer).1.length + (c.chunks buffer).2.length = buffer.length := by
  induction hn : buffer.length using Nat.strongRecOn generalizing buffer with
  | ind n ih =>
    rcases Nat.lt_or_ge buffer.length c.size with hlt | hge
    · rw [c.chunks_of_lt hlt, List.length_nil, Nat.mul_zero, Nat.zero_add, hn]
    · have hdrop : (buffer.drop c.size).length = buffer.length - c.size := List.length_drop
      have hrest := ih _ (by omega) (buffer.drop c.size) rfl
      rw [c.chunks_of_le hpos hge, List.length_cons, Nat.mul_succ]
      dsimp only
      omega

theorem chunks_suffix (c : Codec α) (buffer : List UInt8) : (c.chunks buffer).2 <:+ buffer := by
  rw [chunks]
  generalize buffer.length = fuel
  induction fuel generalizing buffer with
  | zero => exact List.suffix_refl _
  | succ fuel ih =>
    rw [chunksLoop]
    split
    · exact (ih _).trans (List.drop_suffix _ _)
    · exact List.suffix_refl _

/-- Where there is a value, the values take room. -/
theorem size_add_length_chunks_le (c : Codec α) (hpos : 0 < c.size) {buffer : List UInt8}
    (h : c.size ≤ buffer.length) : c.size + (c.chunks buffer).2.length ≤ buffer.length := by
  have hdrop : (buffer.drop c.size).length = buffer.length - c.size := List.length_drop
  rw [c.chunks_of_le hpos h]
  have hle := (c.chunks_suffix (buffer.drop c.size)).length_le
  dsimp only
  omega

/-- The beginning of a stream is some of its values and a part of the next one. -/
theorem exists_of_prefix (c : Codec α) (hpos : 0 < c.size) {l : List α} {buffer : List UInt8}
    (h : buffer <+: c.encodeAll l) : ∃ l₁ l₂ rest, l = l₁ ++ l₂ ∧
      buffer = c.encodeAll l₁ ++ rest ∧ rest.length < c.size ∧ rest <+: c.encodeAll l₂ := by
  induction l generalizing buffer with
  | nil =>
    obtain rfl := List.prefix_nil.1 h
    exact ⟨[], [], [], rfl, rfl, hpos, List.nil_prefix⟩
  | cons a l ih =>
    rcases Nat.lt_or_ge buffer.length c.size with hlt | hge
    · exact ⟨[], a :: l, buffer, rfl, rfl, hlt, h⟩
    · rw [encodeAll_cons] at h
      have hfirst : c.encode a <+: buffer :=
        List.prefix_of_prefix_length_le (List.prefix_append _ _) h
          (by rw [c.length_encode]; exact hge)
      obtain ⟨tail, rfl⟩ := hfirst
      obtain ⟨l₁, l₂, rest, rfl, rfl, hlen, hrest⟩ := ih ((List.prefix_append_right_inj _).1 h)
      exact ⟨a :: l₁, l₂, rest, rfl, by rw [encodeAll_cons, List.append_assoc], hlen, hrest⟩

theorem encodeAll_append (c : Codec α) (l₁ l₂ : List α) :
    c.encodeAll (l₁ ++ l₂) = c.encodeAll l₁ ++ c.encodeAll l₂ := List.flatMap_append

end Codec
