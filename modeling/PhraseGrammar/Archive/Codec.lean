/-! Codecs write values as bytes, and read back exactly what they wrote, whatever follows it. -/

namespace PhraseGrammar

/-- A writer of values as bytes with the reader that undoes it. -/
structure Codec (α : Type) where
  /-- The bytes of a value. -/
  encode : α → List UInt8
  /-- The value at the front of the bytes, and the bytes after it. -/
  decode : List UInt8 → Option (α × List UInt8)
  /-- What was written is read back, and nothing beyond it is used. -/
  decode_encode : ∀ a rest, decode (encode a ++ rest) = some (a, rest)

namespace Codec

/-- A natural number in groups of seven bits, the lowest first; a high bit says that more follow. -/
def encodeNat (n : Nat) : List UInt8 :=
  if n < 128 then [UInt8.ofNat n]
  else UInt8.ofNat (128 + n % 128) :: encodeNat (n / 128)

/-- The number at the front of the bytes. -/
def decodeNat : List UInt8 → Option (Nat × List UInt8)
  | [] => none
  | byte :: rest =>
    if byte.toNat < 128 then some (byte.toNat, rest)
    else (decodeNat rest).map fun higher => (byte.toNat - 128 + 128 * higher.1, higher.2)

/-- A written number is read back. -/
theorem decodeNat_encodeNat (n : Nat) (rest : List UInt8) :
    decodeNat (encodeNat n ++ rest) = some (n, rest) := by
  -- Each group leaves a smaller number to write.
  induction n using encodeNat.induct with
  | case1 n small =>
    have byte : (UInt8.ofNat n).toNat = n :=
      UInt8.toNat_ofNat_of_lt (Nat.lt_trans small (by decide))
    rw [encodeNat, if_pos small, List.cons_append, decodeNat, byte, if_pos small, List.nil_append]
  | case2 n large higher =>
    have fits : 128 + n % 128 < UInt8.size := Nat.add_lt_add_left (Nat.mod_lt n (by decide)) 128
    have byte : (UInt8.ofNat (128 + n % 128)).toNat = 128 + n % 128 :=
      UInt8.toNat_ofNat_of_lt fits
    have flagged : ¬ 128 + n % 128 < 128 := by omega
    have whole : 128 + n % 128 - 128 + 128 * (n / 128) = n := by omega
    rw [encodeNat, if_neg large, List.cons_append, decodeNat, higher, byte, if_neg flagged,
      Option.map_some, whole]

/-- The codec of natural numbers. -/
def nat : Codec Nat :=
  ⟨encodeNat, decodeNat, decodeNat_encodeNat⟩

/-- A codec for values that another type holds, as far as it can be turned back. -/
def via {α β : Type} (codec : Codec α) (view : β → α) (back : α → Option β)
    (back_view : ∀ b, back (view b) = some b) : Codec β where
  encode b := codec.encode (view b)
  decode bytes := (codec.decode bytes).bind fun found => (back found.1).map fun b => (b, found.2)
  decode_encode b rest := by simp [codec.decode_encode, back_view]

/-- Two values, one after the other. -/
def pair {α β : Type} (first : Codec α) (second : Codec β) : Codec (α × β) where
  encode both := first.encode both.1 ++ second.encode both.2
  decode bytes := (first.decode bytes).bind fun a =>
    (second.decode a.2).map fun b => ((a.1, b.1), b.2)
  decode_encode both rest := by
    simp [List.append_assoc, first.decode_encode, second.decode_encode]

/-- A value of one of two types behind a number that says of which. -/
def either {α β : Type} (left : Codec α) (right : Codec β) : Codec (α ⊕ β) where
  encode
    | .inl a => nat.encode 0 ++ left.encode a
    | .inr b => nat.encode 1 ++ right.encode b
  decode bytes := (nat.decode bytes).bind fun side =>
    if side.1 = 0 then (left.decode side.2).map fun a => (.inl a.1, a.2)
    else if side.1 = 1 then (right.decode side.2).map fun b => (.inr b.1, b.2)
    else none
  decode_encode value rest := by
    cases value <;> simp [List.append_assoc, nat.decode_encode, left.decode_encode,
      right.decode_encode]

/-- That many values, one after the other. -/
def decodeMany {α : Type} (codec : Codec α) : Nat → List UInt8 → Option (List α × List UInt8)
  | 0, bytes => some ([], bytes)
  | count + 1, bytes => (codec.decode bytes).bind fun first =>
    (codec.decodeMany count first.2).map fun others => (first.1 :: others.1, others.2)

/-- Written values are read back when their number is known. -/
theorem decodeMany_encode {α : Type} (codec : Codec α) (values : List α) (rest : List UInt8) :
    codec.decodeMany values.length (values.flatMap codec.encode ++ rest) = some (values, rest) := by
  induction values with
  | nil => rfl
  | cons value values others =>
    simp [decodeMany, List.append_assoc, codec.decode_encode, others]

/-- A list behind its length. -/
def list {α : Type} (codec : Codec α) : Codec (List α) where
  encode values := nat.encode values.length ++ values.flatMap codec.encode
  decode bytes := (nat.decode bytes).bind fun count => codec.decodeMany count.1 count.2
  decode_encode values rest := by
    simp [List.append_assoc, nat.decode_encode, decodeMany_encode]

/-- The value of a list of at most one. -/
def atMostOne {α : Type} : List α → Option (Option α)
  | [] => some none
  | [value] => some (some value)
  | _ => none

/-- A value that may be missing. -/
def option {α : Type} (codec : Codec α) : Codec (Option α) :=
  codec.list.via Option.toList atMostOne (by rintro (_ | _) <;> rfl)

/-- A truth value. -/
def bool : Codec Bool :=
  nat.via Bool.toNat (fun n => [false, true][n]?) (by rintro (_ | _) <;> rfl)

/-- A word of 32 bits. -/
def word : Codec UInt32 :=
  nat.via UInt32.toNat (fun n => if n < UInt32.size then some (UInt32.ofNat n) else none) (by
    intro value
    simp [UInt32.toNat_lt value])

/-- A character by its code point. -/
def char : Codec Char :=
  nat.via Char.toNat (fun n => if n.isValidChar then some (Char.ofNat n) else none) (by
    intro c
    have valid : c.toNat.isValidChar := c.valid
    simp [valid])

/-- A text by its characters. -/
def string : Codec String :=
  char.list.via String.toList (fun chars => some (String.ofList chars)) (by simp)

end Codec

end PhraseGrammar
