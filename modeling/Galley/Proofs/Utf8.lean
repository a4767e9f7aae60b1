import Galley.Text.Utf8
import Mathlib.Tactic

/-!
Reading what was written: a text comes back from its octets.

* `lead_two`, `lead_three`, `lead_four`: the sequence that the first octet of a character opens;
* `rest_cons`, `rest_zero`: how the octets behind it are read;
* `nextUtf8_encode`: the octets of a character are read as that character;
* `decodeUtf8_utf8`, `decodeUtf8?_utf8`: so the octets of a text are read as that text.
-/

namespace Galley

/-! ### The first octet -/

lemma lead_two {b : UInt8} {m : Nat} (hb : b.toNat = 192 + m) (hlow : 2 ≤ m) (hhigh : m < 32) :
    Utf8Lead.of? b = some ⟨1, 0x80, 0xBF, m⟩ := by
  simp [Utf8Lead.of?, UInt8.le_iff_toNat_le, hb]
  omega

/-- The second octet of three is bounded so that no character has a shorter sequence and no
surrogate is encoded. -/
lemma lead_three {b : UInt8} {m : Nat} (hb : b.toNat = 224 + m) (hhigh : m < 16) :
    Utf8Lead.of? b = some ⟨2, if m = 0 then 0xA0 else 0x80, if m = 13 then 0x9F else 0xBF, m⟩ := by
  have heq : ∀ n : UInt8, b = n ↔ 224 + m = n.toNat := fun n => by rw [← hb, UInt8.toNat_inj]
  simp only [Utf8Lead.of?, UInt8.le_iff_toNat_le, hb, beq_iff_eq, heq]
  interval_cases m <;> rfl

/-- The second octet of four is bounded so that no character has a shorter sequence and none is
beyond the last one. -/
lemma lead_four {b : UInt8} {m : Nat} (hb : b.toNat = 240 + m) (hhigh : m ≤ 4) :
    Utf8Lead.of? b = some ⟨3, if m = 0 then 0x90 else 0x80, if m = 4 then 0x8F else 0xBF, m⟩ := by
  have heq : ∀ n : UInt8, b = n ↔ 240 + m = n.toNat := fun n => by rw [← hb, UInt8.toNat_inj]
  simp only [Utf8Lead.of?, UInt8.le_iff_toNat_le, hb, beq_iff_eq, heq]
  interval_cases m <;> rfl

/-! ### The octets behind it -/

lemma rest_zero (low high : UInt8) (bits count : Nat) (bs : Octets) :
    Utf8Lead.rest 0 low high bits count bs = (some bits, count) := by
  cases bs <;> rfl

/-- An octet behind the first one adds six bits. -/
lemma rest_cons {low high b : UInt8} {k : Nat} (hb : b.toNat = 128 + k)
    (hlow : low.toNat ≤ 128 + k) (hhigh : 128 + k ≤ high.toNat) (more bits count : Nat)
    (bs : Octets) :
    Utf8Lead.rest (more + 1) low high bits count (b :: bs) =
      Utf8Lead.rest more 0x80 0xBF (bits * 64 + k) (count + 1) bs := by
  have hgood : (decide (low ≤ b) && decide (b ≤ high)) = true := by
    rw [Bool.and_eq_true, decide_eq_true_eq, decide_eq_true_eq, UInt8.le_iff_toNat_le,
      UInt8.le_iff_toNat_le, hb]
    exact ⟨hlow, hhigh⟩
  rw [Utf8Lead.rest, if_neg (Nat.succ_ne_zero more), if_pos hgood, hb, Nat.add_sub_cancel_left]
  rfl

/-! ### Characters and texts -/

lemma toNat_ofNat_add {k n : Nat} (h : n + k < 256) : (UInt8.ofNat (n + k)).toNat = k + n := by
  rw [UInt8.toNat_ofNat', add_comm k]
  exact Nat.mod_eq_of_lt h

/-- The octets of a character are read as that character. -/
lemma nextUtf8_encode (c : Char) (bs : Octets) :
    ∃ b rest, String.utf8EncodeChar c = b :: rest ∧
      nextUtf8 b (rest ++ bs) = (some c.toNat, rest.length + 1) := by
  have hvalid : c.toNat < 0xD800 ∨ 0xDFFF < c.toNat ∧ c.toNat < 0x110000 := c.valid
  have hlong : ∀ b : UInt8, 128 ≤ b.toNat → ¬b < 0x80 := fun b hb => by
    rw [UInt8.lt_iff_toNat_lt]
    exact not_lt.mpr hb
  unfold String.utf8EncodeChar
  have htoNat : c.val.toNat = c.toNat := rfl
  rw [htoNat]
  generalize c.toNat = n at hvalid ⊢
  extract_lets v
  split_ifs with h1 h2 h3
  · have hb := toNat_ofNat_add (k := 0) (show v + 0 < 256 by omega)
    refine ⟨_, _, rfl, ?_⟩
    rw [Nat.add_zero, Nat.zero_add] at hb
    rw [nextUtf8, if_pos, hb]
    · rfl
    · rw [UInt8.lt_iff_toNat_lt, hb]
      exact Nat.lt_succ_of_le h1
  · have hb := toNat_ofNat_add (show v / 64 % 32 + 192 < 256 by omega)
    have hb1 := toNat_ofNat_add (show v % 64 + 128 < 256 by omega)
    refine ⟨_, _, rfl, ?_⟩
    rw [nextUtf8, if_neg (hlong _ (by omega)), lead_two hb (by omega) (by omega)]
    dsimp only
    rw [List.cons_append, rest_cons hb1 (by simp) (by simp; omega), rest_zero]
    simp only [Prod.mk.injEq, Option.some.injEq]
    exact ⟨by omega, rfl⟩
  · have hb := toNat_ofNat_add (show v / 4096 % 16 + 224 < 256 by omega)
    have hb1 := toNat_ofNat_add (show v / 64 % 64 + 128 < 256 by omega)
    have hb2 := toNat_ofNat_add (show v % 64 + 128 < 256 by omega)
    refine ⟨_, _, rfl, ?_⟩
    rw [nextUtf8, if_neg (hlong _ (by omega)), lead_three hb (by omega)]
    dsimp only
    rw [List.cons_append, rest_cons hb1 (by split_ifs <;> simp; omega)
      (by split_ifs <;> simp <;> omega), List.cons_append, rest_cons hb2 (by simp) (by simp; omega),
      rest_zero]
    simp only [Prod.mk.injEq, Option.some.injEq]
    exact ⟨by omega, rfl⟩
  · have hb := toNat_ofNat_add (show v / 262144 % 8 + 240 < 256 by omega)
    have hb1 := toNat_ofNat_add (show v / 4096 % 64 + 128 < 256 by omega)
    have hb2 := toNat_ofNat_add (show v / 64 % 64 + 128 < 256 by omega)
    have hb3 := toNat_ofNat_add (show v % 64 + 128 < 256 by omega)
    refine ⟨_, _, rfl, ?_⟩
    rw [nextUtf8, if_neg (hlong _ (by omega)), lead_four hb (by omega)]
    dsimp only
    rw [List.cons_append, rest_cons hb1 (by split_ifs <;> simp; omega)
      (by split_ifs <;> simp <;> omega), List.cons_append, rest_cons hb2 (by simp) (by simp; omega),
      List.cons_append, rest_cons hb3 (by simp) (by simp; omega), rest_zero]
    simp only [Prod.mk.injEq, Option.some.injEq]
    exact ⟨by omega, rfl⟩

lemma decodeUtf8Aux_skip (rest bs : Octets) :
    decodeUtf8Aux rest.length (rest ++ bs) = decodeUtf8Aux 0 bs := by
  induction rest with
  | nil => rfl
  | cons b rest ih => exact ih

lemma CodePoint.ofNat_toNat (c : Char) : CodePoint.ofNat c.toNat = .scalar c := by
  have hvalid : c.toNat < 0xD800 ∨ 0xDFFF < c.toNat ∧ c.toNat < 0x110000 := c.valid
  rw [CodePoint.ofNat, dif_neg (by omega), if_pos (by omega), Char.ofNat_toNat]

/-- The octets of a text are read as that text. -/
theorem decodeUtf8_utf8 (t : Text) : decodeUtf8 (utf8 t) = t := by
  rw [decodeUtf8]
  induction t with
  | nil => rfl
  | cons c t ih =>
      obtain ⟨b, rest, hencode, hnext⟩ := nextUtf8_encode c (utf8 t)
      have hcons : utf8 (c :: t) = b :: (rest ++ utf8 t) := by
        rw [utf8, List.flatMap_cons, hencode]
        rfl
      rw [hcons, decodeUtf8Aux, hnext]
      dsimp only
      rw [Nat.add_sub_cancel, decodeUtf8Aux_skip, ih, Option.map_some, Option.getD_some,
        Char.ofNat_toNat]

lemma decodeUtf8Aux?_skip (rest bs : Octets) :
    decodeUtf8Aux? rest.length (rest ++ bs) = decodeUtf8Aux? 0 bs := by
  induction rest with
  | nil => rfl
  | cons b rest ih => exact ih

/-- Strict reading gives the same text. -/
theorem decodeUtf8?_utf8 (t : Text) : decodeUtf8? (utf8 t) = some (CodeText.ofText t) := by
  rw [decodeUtf8?]
  induction t with
  | nil => rfl
  | cons c t ih =>
      obtain ⟨b, rest, hencode, hnext⟩ := nextUtf8_encode c (utf8 t)
      have hcons : utf8 (c :: t) = b :: (rest ++ utf8 t) := by
        rw [utf8, List.flatMap_cons, hencode]
        rfl
      simp only [hcons, decodeUtf8Aux?, hnext, Nat.add_sub_cancel, decodeUtf8Aux?_skip, ih,
        CodePoint.ofNat_toNat]
      rfl

end Galley
