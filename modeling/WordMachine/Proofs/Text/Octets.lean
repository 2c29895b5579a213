import Mathlib.Algebra.Group.Nat.Defs
import WordMachine.Text.Octets

/-!
# Texts and their octets

The octets of a text are those of its parts, one after another. Octets that are decoded leniently
give a text that starts with a dash only if they do: several octets never make up an ASCII
character, and what is ill-formed is replaced by a character that is no dash.
-/

namespace WordMachine.Octets

theorem toList_loop_eq (bytes : ByteArray) (i : Nat) (before : List UInt8) :
    ByteArray.toList.loop bytes i before = before.reverse ++ bytes.data.toList.drop i := by
  fun_induction ByteArray.toList.loop bytes i before with
  | case1 i before hlt ih =>
    have hget : bytes.get! i = bytes.data.toList.get ⟨i, hlt⟩ := getElem!_pos bytes.data i hlt
    rw [ih, hget, List.drop_eq_getElem_cons hlt, List.reverse_cons, List.append_assoc,
      List.singleton_append]
    rfl
  | case2 i before hge =>
    have hlength : bytes.data.toList.length ≤ i := Nat.le_of_not_lt hge
    rw [List.drop_of_length_le hlength, List.append_nil]

theorem ofString_eq (s : String) : ofString s = s.toUTF8.data.toList := by
  rw [ofString, ByteArray.toList, toList_loop_eq]
  rfl

@[simp] theorem ofString_append (s t : String) : ofString (s ++ t) = ofString s ++ ofString t := by
  simp [ofString_eq]

theorem ofString_join (ss : List String) : ofString (String.join ss) = ss.flatMap ofString := by
  induction ss with
  | nil => simp [ofString_eq]
  | cons s ss ih => simp [ih]

theorem decodeFrom_eq_append (bs : Octets) (u : Option Unfinished) (done : List (Option Char)) :
    decodeFrom bs u done = done.reverse ++ decodeFrom bs u [] := by
  induction bs generalizing u done with
  | nil => cases u <;> simp [decodeFrom]
  | cons b bs ih =>
    cases u with
    | none =>
      simp only [decodeFrom]
      split
      · rw [ih, ih _ [_]]
        simp
      · exact ih _ _
      · rw [ih, ih _ [_]]
        simp
    | some u =>
      simp only [decodeFrom]
      split
      · split
        · rw [ih, ih _ [_]]
          simp
        · exact ih _ _
      · split
        · rw [ih, ih _ [_, _]]
          simp
        · rw [ih, ih _ [_]]
          simp
        · rw [ih, ih _ [_, _]]
          simp

theorem ofNat_eq_dash {n : Nat} (h : Char.ofNat n = '-') : n = 0x2D := by
  have hnat : (Char.ofNat n).toNat = 0x2D := congrArg Char.toNat h
  unfold Char.ofNat at hnat
  by_cases hvalid : n.isValidChar
  · rw [dif_pos hvalid] at hnat
    exact hnat
  · rw [dif_neg hvalid] at hnat
    contradiction

/-- Whatever the octets owed are, they make up no ASCII character. -/
structure Unfinished.Wide (u : Unfinished) : Prop where
  low_ge : 0x80 ≤ u.low
  high_le : u.high ≤ 0xBF
  value_ge : 0x80 ≤ (u.bits * 64 + (u.low.toNat - 0x80)) * 64 ^ (u.owed - 1)

instance (u : Unfinished) : Decidable u.Wide :=
  decidable_of_iff (0x80 ≤ u.low ∧ u.high ≤ 0xBF ∧
      0x80 ≤ (u.bits * 64 + (u.low.toNat - 0x80)) * 64 ^ (u.owed - 1))
    ⟨fun h => ⟨h.1, h.2.1, h.2.2⟩, fun h => ⟨h.low_ge, h.high_le, h.value_ge⟩⟩

theorem wide_of_lead {b : UInt8} {u : Unfinished} (h : lead b = .start u) : u.Wide := by
  have all : ∀ k : Fin 256, (match lead (UInt8.ofNat k) with
      | .start u => decide u.Wide
      | _ => true) = true := by decide +kernel
  have hb := all ⟨b.toNat, b.toNat_lt⟩
  simpa [h] using hb

theorem head?_decodeFrom_wide {u : Unfinished} (hu : u.Wide) (bs : Octets) :
    (decodeFrom bs (some u) []).head? ≠ some (some '-') := by
  induction bs generalizing u with
  | nil => simp [decodeFrom]
  | cons b bs ih =>
    simp only [decodeFrom]
    split
    · rename_i hb
      obtain ⟨hlow, hhigh, hvalue⟩ := hu
      have hlow_le : u.low.toNat ≤ b.toNat := UInt8.le_iff_toNat_le.mp hb.1
      have hlow_ge : 0x80 ≤ u.low.toNat := UInt8.le_iff_toNat_le.mp hlow
      have hhigh_le : b.toNat ≤ 0xBF :=
        Nat.le_trans (UInt8.le_iff_toNat_le.mp hb.2) (UInt8.le_iff_toNat_le.mp hhigh)
      have hbits : u.bits * 64 + (u.low.toNat - 0x80) ≤ u.bits * 64 + b.toNat % 64 := by omega
      split
      · rename_i howed
        have hlast : u.owed - 1 = 0 := by omega
        rw [hlast, pow_zero, mul_one] at hvalue
        rw [decodeFrom_eq_append]
        intro h
        have hdash := ofNat_eq_dash (by simpa using h)
        omega
      · rename_i howed
        refine ih ⟨UInt8.le_refl _, UInt8.le_refl _, ?_⟩
        obtain ⟨owed, howed'⟩ : ∃ owed, u.owed - 1 = owed + 1 :=
          Nat.exists_eq_succ_of_ne_zero (by omega)
        rw [howed'] at hvalue ⊢
        have hnext : 0x80 ≤ (u.bits * 64 + b.toNat % 64) * 64 * 64 ^ owed := by
          rw [Nat.mul_assoc, ← pow_succ']
          exact Nat.le_trans hvalue (Nat.mul_le_mul_right _ hbits)
        simpa using hnext
    · split
      all_goals
        rw [decodeFrom_eq_append]
        simp

theorem head?_of_decode {bs : Octets} (h : (decode bs).head? = some (some '-')) :
    bs.head? = some 0x2D := by
  cases bs with
  | nil => simp [decode, decodeFrom] at h
  | cons b bs =>
    simp only [decode, decodeFrom] at h
    split at h
    · rename_i c hc
      rw [decodeFrom_eq_append] at h
      obtain rfl : c = '-' := by simpa using h
      unfold lead at hc
      split at hc
      · injection hc with hc
        have hb : b = 0x2D := UInt8.toNat_inj.mp (ofNat_eq_dash hc)
        rw [hb]
        rfl
      · repeat' split at hc
        all_goals contradiction
    · rename_i u hu
      exact absurd h (head?_decodeFrom_wide (wide_of_lead hu) bs)
    · rw [decodeFrom_eq_append] at h
      simp at h

theorem head?_of_lossyText {bs : Octets} (h : (lossyText bs).toList.head? = some '-') :
    bs.head? = some 0x2D := by
  refine head?_of_decode ?_
  rw [lossyText, String.toList_ofList, List.head?_map, Option.map_eq_some_iff] at h
  obtain ⟨c, hc, hdash⟩ := h
  cases c with
  | none => simp at hdash
  | some c =>
    obtain rfl : c = '-' := hdash
    exact hc

end WordMachine.Octets
