import Mathlib.Algebra.Group.Nat.Defs
import Regroup.Digest.Sha256
import Regroup.Yaml.Number

/-! What a digest says of a text. Hexadecimal digits of one width tell the number, so the digits of a
digest tell its words, and two texts have one digest only if their encodings collide. -/

namespace Regroup.Digest

open Yaml (Number)

theorem digit?_digitChar : ∀ d < 16, Number.digit? 16 d.digitChar = some d := by
  decide

/-- Adds a hexadecimal digit to a number. -/
def readDigit (n : Nat) (c : Char) : Option Nat := (Number.digit? 16 c).map (n * 16 + ·)

theorem foldlM_toDigits (n : Nat) : (Nat.toDigits 16 n).foldlM readDigit 0 = some n := by
  induction n using Nat.strongRecOn with
  | ind n ih =>
    rw [Nat.toDigits_eq_if (by decide)]
    by_cases hn : n < 16
    · simp [hn, readDigit, digit?_digitChar n hn]
    · have hlast : Number.digit? 16 (n % 16).digitChar = some (n % 16) :=
        digit?_digitChar _ (Nat.mod_lt n (by decide))
      rw [if_neg hn, List.foldlM_append, ih (n / 16) (by omega)]
      simp only [List.foldlM_cons, List.foldlM_nil, readDigit, hlast, Option.bind_eq_bind,
        Option.bind_some, Option.map_some, Option.pure_def, Option.some.injEq]
      omega

theorem foldlM_zeros (k : Nat) : (List.replicate k '0').foldlM readDigit 0 = some 0 := by
  induction k with
  | zero => rfl
  | succ k ih =>
    rw [List.replicate_succ, List.foldlM_cons]
    exact ih

/-- Leading zeros are no matter. -/
theorem digits?_hexDigits (width n : Nat) : Number.digits? 16 (hexDigits width n) = some n := by
  have hread : (hexDigits width n).foldlM readDigit 0 = some n := by
    rw [hexDigits, List.foldlM_append, foldlM_zeros]
    exact foldlM_toDigits n
  have hne : (hexDigits width n).isEmpty = false := by
    simp [hexDigits, Nat.toDigits_ne_nil]
  rw [Number.digits?, hne, if_neg Bool.false_ne_true]
  exact hread

theorem hexDigits_inj {width m n : Nat} (h : hexDigits width m = hexDigits width n) : m = n := by
  have hread := digits?_hexDigits width m
  rw [h, digits?_hexDigits] at hread
  exact (Option.some.inj hread).symm

theorem length_hexDigits {width n : Nat} (hwidth : 0 < width) (h : n < 16 ^ width) :
    (hexDigits width n).length = width := by
  have hle := (Nat.length_toDigits_le_iff (by decide) hwidth).mpr h
  simp only [hexDigits, List.length_append, List.length_replicate]
  omega

/-- Pieces of one length are found again. -/
theorem words_inj {ws vs : List UInt32} (hlength : ws.length = vs.length)
    (h : ws.flatMap (fun w => hexDigits 8 w.toNat) = vs.flatMap fun w => hexDigits 8 w.toNat) :
    ws = vs := by
  have hpiece : ∀ w : UInt32, (hexDigits 8 w.toNat).length = 8 :=
    fun w => length_hexDigits (by decide) w.toNat_lt
  induction ws generalizing vs with
  | nil => exact (List.length_eq_zero_iff.mp hlength.symm).symm
  | cons w ws ih =>
    cases vs with
    | nil => cases hlength
    | cons v vs =>
      rw [List.flatMap_cons, List.flatMap_cons] at h
      obtain ⟨hfirst, hrest⟩ := List.append_inj h ((hpiece w).trans (hpiece v).symm)
      rw [UInt32.toNat_inj.mp (hexDigits_inj hfirst), ih (Nat.succ.inj hlength) hrest]

/-- The state that the last block of a message leaves. -/
def Sha256.last (message : List UInt8) : Sha256.State :=
  (pieces 64 (pad 64 8 message)).foldl Sha256.compress Sha256.initial

theorem sha256_eq (message : List UInt8) : sha256 message =
    String.ofList ((Sha256.last message).words.flatMap fun w => hexDigits 8 w.toNat) := rfl

/-- Two messages leave the same words. -/
def Collide (m n : List UInt8) : Prop := m ≠ n ∧ (Sha256.last m).words = (Sha256.last n).words

theorem words_eq_of_sha256_eq {m n : List UInt8} (h : sha256 m = sha256 n) :
    (Sha256.last m).words = (Sha256.last n).words := by
  rw [sha256_eq, sha256_eq, String.ofList_inj] at h
  exact words_inj rfl h

theorem toList_loop_eq (bytes : ByteArray) (i : Nat) (front : List UInt8) :
    ByteArray.toList.loop bytes i front = front.reverse ++ bytes.data.toList.drop i := by
  induction i, front using ByteArray.toList.loop.induct bytes with
  | case1 i front hi ih =>
    have hlt : i < bytes.data.toList.length := by simpa using hi
    have hget : bytes.get! i = bytes.data.toList[i] := getElem!_pos bytes.data i hlt
    rw [ByteArray.toList.loop, if_pos hi, ih, List.drop_eq_getElem_cons hlt, hget]
    simp
  | case2 i front hi =>
    have hle : bytes.data.toList.length ≤ i := by simpa using hi
    rw [ByteArray.toList.loop, if_neg hi, List.drop_eq_nil_of_le hle, List.append_nil]

/-- Texts have one encoding only if they are one text. -/
theorem eq_of_bytes_eq {s t : String} (h : s.toUTF8.toList = t.toUTF8.toList) : s = t := by
  simp only [ByteArray.toList, toList_loop_eq, List.reverse_nil, List.nil_append, List.drop_zero] at h
  exact String.toByteArray_inj.mp (ByteArray.ext (Array.toList_inj.mp h))

theorem eq_or_collide {s t : String} (h : sha256Text s = sha256Text t) :
    s = t ∨ Collide s.toUTF8.toList t.toUTF8.toList := by
  by_cases hst : s = t
  · exact .inl hst
  · exact .inr ⟨fun hbytes => hst (eq_of_bytes_eq hbytes), words_eq_of_sha256_eq h⟩

end Regroup.Digest
