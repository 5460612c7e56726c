import Mathlib.Data.String.Basic
import Metnos.Lib.CodePoints

/-!
# Lib.Utf8 — the bytes of a text, and that they compare as the text does

A map that orders its keys by their bytes and one that orders them by their characters have the
same order.
-/

namespace Utf8

def encode (c : Char) : List ℕ :=
  if c.toNat < 0x80 then [c.toNat]
  else if c.toNat < 0x800 then [0xC0 + c.toNat / 64, 0x80 + c.toNat % 64]
  else if c.toNat < 0x10000 then
    [0xE0 + c.toNat / 4096, 0x80 + c.toNat / 64 % 64, 0x80 + c.toNat % 64]
  else
    [0xF0 + c.toNat / 262144, 0x80 + c.toNat / 4096 % 64, 0x80 + c.toNat / 64 % 64,
      0x80 + c.toNat % 64]

def bytes (s : String) : List ℕ := s.toList.flatMap encode

/-- The bytes of two characters differ before either ends. -/
theorem encode_lt {c d : Char} (h : c < d) (r r' : List ℕ) : encode c ++ r < encode d ++ r' := by
  have hn : c.toNat < d.toNat := h
  -- the digits of the two numbers, to base 64, in the order of their weight
  have two : c.toNat / 64 < d.toNat / 64 ∨
      c.toNat / 64 = d.toNat / 64 ∧ c.toNat % 64 < d.toNat % 64 := by omega
  have three : c.toNat / 4096 < d.toNat / 4096 ∨ c.toNat / 4096 = d.toNat / 4096 ∧
      (c.toNat / 64 % 64 < d.toNat / 64 % 64 ∨
        c.toNat / 64 % 64 = d.toNat / 64 % 64 ∧ c.toNat % 64 < d.toNat % 64) := by omega
  have four : c.toNat / 262144 < d.toNat / 262144 ∨ c.toNat / 262144 = d.toNat / 262144 ∧
      (c.toNat / 4096 % 64 < d.toNat / 4096 % 64 ∨
        c.toNat / 4096 % 64 = d.toNat / 4096 % 64 ∧
          (c.toNat / 64 % 64 < d.toNat / 64 % 64 ∨
            c.toNat / 64 % 64 = d.toNat / 64 % 64 ∧ c.toNat % 64 < d.toNat % 64)) := by omega
  unfold encode
  split
  · split
    · exact List.cons_lt_cons_iff.mpr (.inl hn)
    · split
      · exact List.cons_lt_cons_iff.mpr (.inl (by omega))
      · split <;> exact List.cons_lt_cons_iff.mpr (.inl (by omega))
  · split
    · rw [if_neg (by omega)]
      split
      · simp only [List.cons_append, List.nil_append, List.cons_lt_cons_iff]
        omega
      · split <;> exact List.cons_lt_cons_iff.mpr (.inl (by omega))
    · split
      · rw [if_neg (by omega), if_neg (by omega)]
        split
        · simp only [List.cons_append, List.nil_append, List.cons_lt_cons_iff]
          omega
        · exact List.cons_lt_cons_iff.mpr (.inl (by omega))
      · rw [if_neg (by omega), if_neg (by omega), if_neg (by omega)]
        simp only [List.cons_append, List.nil_append, List.cons_lt_cons_iff]
        omega

theorem flatMap_encode_lt {a b : List Char} (h : a < b) : a.flatMap encode < b.flatMap encode := by
  induction a generalizing b with
  | nil =>
    cases b with
    | nil => exact absurd h (lt_irrefl _)
    | cons d b =>
      rw [List.flatMap_cons]
      unfold encode
      split
      · exact List.nil_lt_cons _ _
      · split
        · exact List.nil_lt_cons _ _
        · split <;> exact List.nil_lt_cons _ _
  | cons c a ih =>
    cases b with
    | nil => exact absurd h (List.not_lt_nil _)
    | cons d b =>
      rw [List.flatMap_cons, List.flatMap_cons]
      rcases List.cons_lt_cons_iff.mp h with hcd | ⟨rfl, hab⟩
      · exact encode_lt hcd _ _
      · exact List.append_left_lt (ih hab)

theorem bytes_strictMono : StrictMono bytes := by
  intro a b h
  exact flatMap_encode_lt (String.lt_iff_toList_lt.mp h)

theorem bytes_le_iff {a b : String} : bytes a ≤ bytes b ↔ a ≤ b :=
  bytes_strictMono.le_iff_le

end Utf8

/-!
## Bytes as hexadecimal digits, and in base 64

`bytes.hex` and `bytes.fromhex`, `b64encode` and `b64decode` of a text that is validated.
-/

namespace ByteText

open CodePoint

/-! ### Hexadecimal -/

def hexByte (b : UInt8) : List Char := [Json.hexDigit (b.toNat / 16), Json.hexDigit (b.toNat % 16)]

/-- `bytes.hex` -/
def hex (bytes : List UInt8) : List Char := bytes.flatMap hexByte

/-- What `bytes.fromhex` skips between two bytes. -/
def isBlank : CodePoint → Bool
  | .char c => c ∈ [' ', '\t', '\n', '\r', Char.ofNat 11, Char.ofNat 12]
  | .surrogate _ => false

/-- `bytes.fromhex` -/
def fromHex : Text → Option (List UInt8)
  | [] => some []
  | [a] => if isBlank a then some [] else none
  | a :: b :: r =>
    if isBlank a then fromHex (b :: r)
    else do some (UInt8.ofNat (16 * (← hexValue a) + (← hexValue b)) :: (← fromHex r))

theorem isBlank_digit {n : ℕ} (h : n < 16) : isBlank (.char (Json.hexDigit n)) = false := by
  interval_cases n <;> rfl

/-- Bytes are read as they were written. -/
theorem fromHex_hex (bytes : List UInt8) : fromHex (ascii (hex bytes)) = some bytes := by
  induction bytes with
  | nil => rfl
  | cons b bytes ih =>
    have hb : b.toNat < 256 := b.toNat_lt
    have high : b.toNat / 16 < 16 := by omega
    have low : b.toNat % 16 < 16 := by omega
    show fromHex (.char (Json.hexDigit (b.toNat / 16)) :: .char (Json.hexDigit (b.toNat % 16)) ::
      ascii (hex bytes)) = _
    rw [fromHex, isBlank_digit high, hexValue_digit high, hexValue_digit low, ih]
    show some (UInt8.ofNat (16 * (b.toNat / 16) + b.toNat % 16) :: bytes) = _
    rw [Nat.div_add_mod, UInt8.ofNat_toNat]

/-! ### Base 64 -/

def sextet (n : ℕ) : Char :=
  "ABCDEFGHIJKLMNOPQRSTUVWXYZabcdefghijklmnopqrstuvwxyz0123456789+/".toList.getD n 'A'

def sextetValue : CodePoint → Option ℕ
  | .char c =>
    if 'A' ≤ c ∧ c ≤ 'Z' then some (c.toNat - 65)
    else if 'a' ≤ c ∧ c ≤ 'z' then some (c.toNat - 71)
    else if '0' ≤ c ∧ c ≤ '9' then some (c.toNat + 4)
    else if c = '+' then some 62
    else if c = '/' then some 63
    else none
  | .surrogate _ => none

/-- `base64.b64encode` -/
def base64 : List UInt8 → List Char
  | [] => []
  | [a] => [sextet (a.toNat / 4), sextet (a.toNat % 4 * 16), '=', '=']
  | [a, b] =>
    [sextet (a.toNat / 4), sextet (a.toNat % 4 * 16 + b.toNat / 16), sextet (b.toNat % 16 * 4), '=']
  | a :: b :: c :: r =>
    sextet (a.toNat / 4) :: sextet (a.toNat % 4 * 16 + b.toNat / 16) ::
      sextet (b.toNat % 16 * 4 + c.toNat / 64) :: sextet (c.toNat % 64) :: base64 r

/-- `base64.b64decode(.., validate=True)`: groups of four, padded at the end only. -/
def fromBase64 : Text → Option (List UInt8)
  | [] => some []
  | a :: b :: c :: d :: r =>
    if r = [] ∧ c = .char '=' ∧ d = .char '=' then do
      some [UInt8.ofNat ((← sextetValue a) * 4 + (← sextetValue b) / 16)]
    else if r = [] ∧ d = .char '=' then do
      let y ← sextetValue b
      let z ← sextetValue c
      some [UInt8.ofNat ((← sextetValue a) * 4 + y / 16), UInt8.ofNat (y % 16 * 16 + z / 4)]
    else do
      let y ← sextetValue b
      let z ← sextetValue c
      some (UInt8.ofNat ((← sextetValue a) * 4 + y / 16) :: UInt8.ofNat (y % 16 * 16 + z / 4) ::
        UInt8.ofNat (z % 4 * 64 + (← sextetValue d)) :: (← fromBase64 r))
  | _ => none

theorem sextetValue_sextet : ∀ n < 64, sextetValue (.char (sextet n)) = some n := by decide +kernel

theorem sextet_ne_pad : ∀ n < 64, CodePoint.char (sextet n) ≠ .char '=' := by decide +kernel

theorem fromBase64_group {w x y z : ℕ} (hw : w < 64) (hx : x < 64) (hy : y < 64) (hz : z < 64)
    (r : Text) : fromBase64 (.char (sextet w) :: .char (sextet x) :: .char (sextet y) ::
      .char (sextet z) :: r) = (fromBase64 r).map fun bytes =>
        UInt8.ofNat (w * 4 + x / 16) :: UInt8.ofNat (x % 16 * 16 + y / 4) ::
          UInt8.ofNat (y % 4 * 64 + z) :: bytes := by
  rw [fromBase64, if_neg fun h => sextet_ne_pad y hy h.2.1, if_neg fun h => sextet_ne_pad z hz h.2,
    sextetValue_sextet w hw, sextetValue_sextet x hx, sextetValue_sextet y hy,
    sextetValue_sextet z hz]
  cases fromBase64 r <;> rfl

theorem byte_of_number {b : UInt8} {n : ℕ} (h : n = b.toNat) : UInt8.ofNat n = b := by
  rw [h, UInt8.ofNat_toNat]

/-- Bytes are read as they were written. -/
theorem fromBase64_base64 (bytes : List UInt8) : fromBase64 (ascii (base64 bytes)) = some bytes := by
  fun_induction base64 bytes with
  | case1 => rfl
  | case2 a =>
    have ha := a.toNat_lt
    have first := sextetValue_sextet (a.toNat / 4) (by omega)
    have second := sextetValue_sextet (a.toNat % 4 * 16) (by omega)
    show fromBase64 [.char (sextet (a.toNat / 4)), .char (sextet (a.toNat % 4 * 16)), .char '=',
      .char '='] = _
    rw [fromBase64, if_pos ⟨rfl, rfl, rfl⟩, first, second]
    exact congrArg (fun b => some [b]) (byte_of_number (by omega))
  | case3 a b =>
    have ha := a.toNat_lt
    have hb := b.toNat_lt
    have first := sextetValue_sextet (a.toNat / 4) (by omega)
    have second := sextetValue_sextet (a.toNat % 4 * 16 + b.toNat / 16) (by omega)
    have third := sextetValue_sextet (b.toNat % 16 * 4) (by omega)
    have pad := sextet_ne_pad (b.toNat % 16 * 4) (by omega)
    show fromBase64 [.char (sextet (a.toNat / 4)), .char (sextet (a.toNat % 4 * 16 + b.toNat / 16)),
      .char (sextet (b.toNat % 16 * 4)), .char '='] = _
    rw [fromBase64, if_neg fun h => pad h.2.1, if_pos ⟨rfl, rfl⟩, first, second, third]
    show some [UInt8.ofNat _, UInt8.ofNat _] = _
    rw [byte_of_number (b := a) (by omega), byte_of_number (b := b) (by omega)]
  | case4 a b c r ih =>
    have ha := a.toNat_lt
    have hb := b.toNat_lt
    have hc := c.toNat_lt
    refine (fromBase64_group (by omega) (by omega) (by omega) (by omega) _).trans ?_
    rw [show fromBase64 (List.map char (base64 r)) = some r from ih,
      byte_of_number (b := a) (by omega), byte_of_number (b := b) (by omega),
      byte_of_number (b := c) (by omega)]
    rfl

end ByteText
