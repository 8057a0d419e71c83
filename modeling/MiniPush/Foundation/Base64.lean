import Mathlib.Data.Nat.Notation

/-!
Standard Base64 with padding, over lists of bytes. Three bytes become four symbols of six bits;
a last group of one or two bytes is padded with `=`.
-/

namespace Foundation.Base64

/-- The standard alphabet, in the order of the symbols' values. -/
def alphabet : List Char :=
  "ABCDEFGHIJKLMNOPQRSTUVWXYZabcdefghijklmnopqrstuvwxyz0123456789+/".toList

def padding : Char := '='

def symbol (n : ℕ) : Char :=
  alphabet.getD n padding

def value? (c : Char) : Option ℕ :=
  alphabet.idxOf? c

def encodeChars : List UInt8 → List Char
  | [] => []
  | [a] => [symbol (a.toNat / 4), symbol (a.toNat % 4 * 16), padding, padding]
  | [a, b] =>
    [symbol (a.toNat / 4), symbol (a.toNat % 4 * 16 + b.toNat / 16), symbol (b.toNat % 16 * 4),
      padding]
  | a :: b :: c :: rest =>
    symbol (a.toNat / 4) :: symbol (a.toNat % 4 * 16 + b.toNat / 16) ::
      symbol (b.toNat % 16 * 4 + c.toNat / 64) :: symbol (c.toNat % 64) :: encodeChars rest

/-- The byte string of a list of symbols, if their number and padding are right. -/
def decodeChars : List Char → Option (List UInt8)
  | [] => some []
  | w :: x :: y :: z :: rest => do
    let p ← value? w
    let q ← value? x
    let a := UInt8.ofNat (p * 4 + q / 16)
    if y = padding then
      if z = padding ∧ rest = [] then some [a] else none
    else do
      let r ← value? y
      let b := UInt8.ofNat (q % 16 * 16 + r / 4)
      if z = padding then
        if rest = [] then some [a, b] else none
      else do
        let s ← value? z
        let bytes ← decodeChars rest
        some (a :: b :: UInt8.ofNat (r % 4 * 64 + s) :: bytes)
  | _ => none

def encode (bytes : List UInt8) : String :=
  String.ofList (encodeChars bytes)

def decode? (text : String) : Option (List UInt8) :=
  decodeChars text.toList

theorem value?_symbol {n : ℕ} (h : n < 64) : value? (symbol n) = some n := by
  have all : ∀ i : Fin 64, value? (symbol i) = some i.val := by decide +kernel
  exact all ⟨n, h⟩

theorem symbol_ne_padding {n : ℕ} (h : n < 64) : symbol n ≠ padding := by
  have all : ∀ i : Fin 64, symbol i ≠ padding := by decide +kernel
  exact all ⟨n, h⟩

private theorem ofNat_eq {b : UInt8} {n : ℕ} (h : n = b.toNat) : UInt8.ofNat n = b := by
  rw [h, UInt8.ofNat_toNat]

theorem decodeChars_encodeChars (bytes : List UInt8) :
    decodeChars (encodeChars bytes) = some bytes := by
  induction bytes using encodeChars.induct with
  | case1 => rfl
  | case2 a =>
    have ha := a.toNat_lt
    have hp : value? (symbol (a.toNat / 4)) = some (a.toNat / 4) := value?_symbol (by omega)
    have hq : value? (symbol (a.toNat % 4 * 16)) = some (a.toNat % 4 * 16) :=
      value?_symbol (by omega)
    have e : UInt8.ofNat (a.toNat / 4 * 4 + a.toNat % 4 * 16 / 16) = a := ofNat_eq (by omega)
    simp only [encodeChars, decodeChars, hp, hq, e, Option.bind_eq_bind, Option.bind_some, and_self,
      if_true]
  | case3 a b =>
    have ha := a.toNat_lt
    have hb := b.toNat_lt
    have hp : value? (symbol (a.toNat / 4)) = some (a.toNat / 4) := value?_symbol (by omega)
    have hq := value?_symbol (show a.toNat % 4 * 16 + b.toNat / 16 < 64 by omega)
    have hr := value?_symbol (show b.toNat % 16 * 4 < 64 by omega)
    have hy := symbol_ne_padding (show b.toNat % 16 * 4 < 64 by omega)
    have ea : UInt8.ofNat (a.toNat / 4 * 4 + (a.toNat % 4 * 16 + b.toNat / 16) / 16) = a :=
      ofNat_eq (by omega)
    have eb : UInt8.ofNat ((a.toNat % 4 * 16 + b.toNat / 16) % 16 * 16 + b.toNat % 16 * 4 / 4) = b :=
      ofNat_eq (by omega)
    simp only [encodeChars, decodeChars, hp, hq, hr, hy, ea, eb, Option.bind_eq_bind,
      Option.bind_some, if_true, if_false]
  | case4 a b c rest ih =>
    have ha := a.toNat_lt
    have hb := b.toNat_lt
    have hc := c.toNat_lt
    have hp : value? (symbol (a.toNat / 4)) = some (a.toNat / 4) := value?_symbol (by omega)
    have hq := value?_symbol (show a.toNat % 4 * 16 + b.toNat / 16 < 64 by omega)
    have hr := value?_symbol (show b.toNat % 16 * 4 + c.toNat / 64 < 64 by omega)
    have hs := value?_symbol (show c.toNat % 64 < 64 by omega)
    have hy := symbol_ne_padding (show b.toNat % 16 * 4 + c.toNat / 64 < 64 by omega)
    have hz := symbol_ne_padding (show c.toNat % 64 < 64 by omega)
    have ea : UInt8.ofNat (a.toNat / 4 * 4 + (a.toNat % 4 * 16 + b.toNat / 16) / 16) = a :=
      ofNat_eq (by omega)
    have eb : UInt8.ofNat ((a.toNat % 4 * 16 + b.toNat / 16) % 16 * 16 +
        (b.toNat % 16 * 4 + c.toNat / 64) / 4) = b := ofNat_eq (by omega)
    have ec : UInt8.ofNat ((b.toNat % 16 * 4 + c.toNat / 64) % 4 * 64 + c.toNat % 64) = c :=
      ofNat_eq (by omega)
    simp only [encodeChars, decodeChars, hp, hq, hr, hs, hy, hz, ea, eb, ec, ih,
      Option.bind_eq_bind, Option.bind_some, if_false]

theorem decode?_encode (bytes : List UInt8) : decode? (encode bytes) = some bytes := by
  rw [decode?, encode, String.toList_ofList, decodeChars_encodeChars]

end Foundation.Base64
