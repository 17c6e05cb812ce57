import Express.Fingerprint
import Mathlib.Algebra.Group.Nat.Defs

/-!
# Edits and fingerprints

Each byte of a text is taken into the hash by a step that can be undone, since the multiplier is odd. So two texts that
have the same bytes but for one never come to the same hash, whatever follows that byte, and sixteen digits write every
hash in a way of its own (`ofBytes_edited`).
-/

namespace Express.Fingerprint

/-! ### Steps -/

/-- The inverse of the multiplier among words. -/
def primeInverse : UInt64 := 0xce965057aff6957b

theorem prime_mul_primeInverse : prime * primeInverse = 1 := by decide

/-- The hash in front of a byte, from the hash behind it. -/
def unstep (hash : UInt64) (byte : UInt8) : UInt64 :=
  (hash * primeInverse) ^^^ byte.toUInt64

theorem unstep_step (hash : UInt64) (byte : UInt8) : unstep (step hash byte) byte = hash := by
  rw [unstep, step, UInt64.mul_assoc, prime_mul_primeInverse, UInt64.mul_one, UInt64.xor_assoc, UInt64.xor_self,
    UInt64.xor_zero]

theorem step_left_inj {byte : UInt8} {first second : UInt64} : step first byte = step second byte ↔ first = second := by
  constructor
  · intro same
    rw [← unstep_step first byte, same, unstep_step]
  · rintro rfl
    rfl

/-- Two bytes that come to the same hash from the same hash are the same. -/
theorem step_right_inj {hash : UInt64} {a b : UInt8} : step hash a = step hash b ↔ a = b := by
  constructor
  · intro same
    have undone : hash ^^^ a.toUInt64 = hash ^^^ b.toUInt64 := by
      have multiplied := congrArg (· * primeInverse) same
      simpa only [step, UInt64.mul_assoc, prime_mul_primeInverse, UInt64.mul_one] using multiplied
    exact UInt8.toUInt64_inj.mp ((UInt64.xor_right_inj hash).mp undone)
  · rintro rfl
    rfl

theorem foldl_step_inj {bytes : List UInt8} {first second : UInt64} :
    bytes.foldl step first = bytes.foldl step second ↔ first = second := by
  induction bytes generalizing first second with
  | nil => rfl
  | cons byte bytes ih => rw [List.foldl_cons, List.foldl_cons, ih, step_left_inj]

theorem hash_edited {before after : List UInt8} {a b : UInt8} :
    hash (before ++ [a] ++ after) = hash (before ++ [b] ++ after) ↔ a = b := by
  simp only [hash, List.foldl_append, List.foldl_cons, List.foldl_nil]
  rw [foldl_step_inj, step_right_inj]

/-! ### Digits -/

theorem digitChar_inj : ∀ m < 16, ∀ n < 16, Nat.digitChar m = Nat.digitChar n → m = n := by decide

theorem hexDigits_inj {width m n : Nat} (small : m < 16 ^ width) (small' : n < 16 ^ width)
    (same : hexDigits m width = hexDigits n width) : m = n := by
  induction width generalizing m n with
  | zero => omega
  | succ width ih =>
    rw [Nat.pow_succ] at small small'
    obtain ⟨front, last⟩ := List.append_inj' same rfl
    have quotients : m / 16 = n / 16 := ih (by omega) (by omega) front
    have remainders : m % 16 = n % 16 :=
      digitChar_inj _ (Nat.mod_lt m (by decide)) _ (Nat.mod_lt n (by decide)) (List.singleton_inj.mp last)
    omega

theorem ofBytes_inj {first second : List UInt8} : ofBytes first = ofBytes second ↔ hash first = hash second := by
  constructor
  · intro same
    rw [ofBytes, ofBytes, String.append_right_inj, String.ofList_inj] at same
    exact UInt64.toNat_inj.mp (hexDigits_inj (UInt64.toNat_lt _) (UInt64.toNat_lt _) same)
  · intro same
    rw [ofBytes, same, ofBytes]

/-! ### Texts -/

theorem toList_loop (bytes : ByteArray) (i : Nat) (front : List UInt8) :
    ByteArray.toList.loop bytes i front = front.reverse ++ bytes.data.toList.drop i := by
  induction behind : bytes.data.toList.length - i generalizing i front with
  | zero =>
    have reached : bytes.data.toList.length ≤ i := Nat.le_of_sub_eq_zero behind
    rw [ByteArray.toList.loop, if_neg (show ¬ i < bytes.size from Nat.not_lt.mpr reached),
      List.drop_eq_nil_of_le reached, List.append_nil]
  | succ rest ih =>
    have inside : i < bytes.data.toList.length := Nat.lt_of_sub_eq_succ behind
    have byte : bytes.get! i = bytes.data.toList[i] := getElem!_pos bytes.data i inside
    rw [ByteArray.toList.loop, if_pos (show i < bytes.size from inside), ih _ _ (by omega),
      List.drop_eq_getElem_cons inside, List.reverse_cons, List.append_assoc, List.singleton_append, byte]

theorem toList_eq_data (bytes : ByteArray) : bytes.toList = bytes.data.toList :=
  toList_loop bytes 0 []

/-- At how many places two lists of bytes differ, as far as both go. -/
def differences (first second : List UInt8) : Nat :=
  (first.zip second).countP fun pair => pair.1 != pair.2

theorem differences_cons (a b : UInt8) (first second : List UInt8) :
    differences (a :: first) (b :: second) = differences first second + if a = b then 0 else 1 := by
  rw [differences, List.zip_cons_cons, List.countP_cons, differences]
  by_cases same : a = b <;> simp [same]

theorem eq_of_differences {first second : List UInt8} (even : first.length = second.length)
    (none : differences first second = 0) : first = second := by
  induction first generalizing second with
  | nil => exact (List.length_eq_zero_iff.mp even.symm).symm
  | cons a first ih =>
    cases second with
    | nil => cases even
    | cons b second =>
      rw [differences_cons] at none
      by_cases same : a = b
      · rw [if_pos same] at none
        rw [same, ih (Nat.succ.inj even) none]
      · rw [if_neg same] at none
        cases none

/-- Two lists that differ at one place are an edit of one byte. -/
theorem exists_edit {first second : List UInt8} (even : first.length = second.length)
    (one : differences first second = 1) :
    ∃ before after a b, first = before ++ [a] ++ after ∧ second = before ++ [b] ++ after ∧ a ≠ b := by
  induction first generalizing second with
  | nil => cases one
  | cons a first ih =>
    cases second with
    | nil => cases even
    | cons b second =>
      rw [differences_cons] at one
      by_cases same : a = b
      · rw [if_pos same] at one
        obtain ⟨before, after, c, d, rfl, rfl, different⟩ := ih (Nat.succ.inj even) one
        exact ⟨a :: before, after, c, d, rfl, by rw [same]; rfl, different⟩
      · rw [if_neg same] at one
        obtain rfl := eq_of_differences (Nat.succ.inj even) (Nat.succ.inj one)
        exact ⟨[], first, a, b, rfl, rfl, same⟩

/-- A fingerprint tells any two bytes apart that stand in the same place between the same others, so no text has the
fingerprint of one that is as long and differs from it in exactly one byte. -/
theorem ofBytes_edited :
    (∀ (before after : List UInt8) (a b : UInt8),
      ofBytes (before ++ [a] ++ after) = ofBytes (before ++ [b] ++ after) ↔ a = b) ∧
    ∀ text other : String, text.toUTF8.toList.length = other.toUTF8.toList.length →
      differences text.toUTF8.toList other.toUTF8.toList = 1 → ofText text ≠ ofText other := by
  refine ⟨fun before after a b => ofBytes_inj.trans hash_edited, ?_⟩
  intro text other even one same
  obtain ⟨before, after, a, b, shape, shape', different⟩ := exists_edit even one
  rw [ofText, ofText, shape, shape', ofBytes_inj, hash_edited] at same
  exact different same

/-- Two schemas with names of one letter. -/
theorem schema_name_edited :
    "SCHEMA A; END_SCHEMA;".toUTF8.toList.length = "SCHEMA B; END_SCHEMA;".toUTF8.toList.length ∧
      differences "SCHEMA A; END_SCHEMA;".toUTF8.toList "SCHEMA B; END_SCHEMA;".toUTF8.toList = 1 ∧
      ofText "SCHEMA A; END_SCHEMA;" ≠ ofText "SCHEMA B; END_SCHEMA;" := by
  have even : "SCHEMA A; END_SCHEMA;".toUTF8.toList.length = "SCHEMA B; END_SCHEMA;".toUTF8.toList.length := by
    rw [toList_eq_data, toList_eq_data]
    decide +kernel
  have one : differences "SCHEMA A; END_SCHEMA;".toUTF8.toList "SCHEMA B; END_SCHEMA;".toUTF8.toList = 1 := by
    rw [toList_eq_data, toList_eq_data]
    decide +kernel
  exact ⟨even, one, ofBytes_edited.2 _ _ even one⟩

end Express.Fingerprint
