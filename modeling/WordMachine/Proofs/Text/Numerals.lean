import Mathlib.Data.List.Forall2
import Mathlib.Data.Nat.Digits.Defs
import Mathlib.Tactic.Ring
import WordMachine.Text.Column
import WordMachine.Text.Numeral

/-!
# Hexadecimal numerals

A numeral is a number written digit by digit, the highest first. Each digit stands in either case,
and any number of zeros may lead. Every numeral of a word is read as that word, and nothing else is.
-/

namespace WordMachine.Text.Hex

/-- The character is the digit of this value, in lower or in upper case. -/
def IsDigit (c : Char) (d : Nat) : Prop :=
  "0123456789abcdef".toList[d]? = some c ∨ "0123456789ABCDEF".toList[d]? = some c

def Spells (cs : List Char) (n : Nat) : Prop :=
  cs ≠ [] ∧ ∃ ds, List.Forall₂ IsDigit cs ds ∧ Nat.ofDigits 16 ds.reverse = n

variable {c : Char} {cs : List Char} {d n : Nat} {ds : List Nat} {w : Word}

theorem IsDigit.of_tables {P : Char → Nat → Prop} (h : IsDigit c d)
    (hlower : ∀ k : Fin 16, P ("0123456789abcdef".toList[k.val]) k.val)
    (hupper : ∀ k : Fin 16, P ("0123456789ABCDEF".toList[k.val]) k.val) : P c d := by
  rcases h with h | h
  · obtain ⟨hd, rfl⟩ := List.getElem?_eq_some_iff.mp h
    exact hlower ⟨d, hd⟩
  · obtain ⟨hd, rfl⟩ := List.getElem?_eq_some_iff.mp h
    exact hupper ⟨d, hd⟩

theorem IsDigit.digitValue? (h : IsDigit c d) : digitValue? c = some d :=
  h.of_tables (P := fun c d => Hex.digitValue? c = some d) (by decide) (by decide)

instance (c : Char) (d : Nat) : Decidable (IsDigit c d) := inferInstanceAs (Decidable (_ ∨ _))

theorem isDigit_of_digitValue? (h : Hex.digitValue? c = some d) : IsDigit c d := by
  have all : ∀ k : Fin 128, ∀ d ∈ Hex.digitValue? (Char.ofNat k), IsDigit (Char.ofNat k) d := by
    decide
  have hlt : c.toNat < 128 := by
    unfold Hex.digitValue? at h
    split at h
    · next hc => exact Nat.lt_of_le_of_lt hc.2 (by decide)
    · split at h
      · next hc => exact Nat.lt_of_le_of_lt hc.2 (by decide)
      · split at h
        · next hc => exact Nat.lt_of_le_of_lt hc.2 (by decide)
        · contradiction
  have hdigit := all ⟨c.toNat, hlt⟩ d
  rw [Char.ofNat_toNat] at hdigit
  exact hdigit h

theorem isDigit_digit (hd : d < 16) : IsDigit (digit d) d := by
  have all : ∀ k : Fin 16, "0123456789abcdef".toList[k.val]? = some (digit k.val) := by decide
  exact .inl (all ⟨d, hd⟩)

theorem Spells.forall_mem {p : Char → Bool} (h : Spells cs n)
    (hlower : "0123456789abcdef".toList.all p = true)
    (hupper : "0123456789ABCDEF".toList.all p = true) : ∀ c ∈ cs, p c = true := by
  obtain ⟨-, ds, hdigits, -⟩ := h
  induction hdigits with
  | nil => simp
  | cons hc _ ih =>
    refine List.forall_mem_cons.mpr ⟨?_, ih⟩
    rcases hc with hc | hc
    · exact List.all_eq_true.mp hlower _ (List.mem_of_getElem? hc)
    · exact List.all_eq_true.mp hupper _ (List.mem_of_getElem? hc)

theorem value_cons (a d : Nat) (ds : List Nat) :
    a * 16 ^ (d :: ds).length + Nat.ofDigits 16 (d :: ds).reverse =
      (16 * a + d) * 16 ^ ds.length + Nat.ofDigits 16 ds.reverse := by
  rw [List.reverse_cons, Nat.ofDigits_append, Nat.ofDigits_singleton, List.length_reverse,
    List.length_cons]
  ring

theorem foldlM_shiftIn_of_forall₂ (h : List.Forall₂ IsDigit cs ds) (a : Nat)
    (hlt : a * 16 ^ ds.length + Nat.ofDigits 16 ds.reverse < 65536) :
    cs.foldlM shiftIn a = some (a * 16 ^ ds.length + Nat.ofDigits 16 ds.reverse) := by
  induction h generalizing a with
  | nil => simp
  | @cons c d cs ds hc _ ih =>
    have hhead : 16 * a + d ≤ (16 * a + d) * 16 ^ ds.length :=
      Nat.le_mul_of_pos_right _ (Nat.pow_pos (by decide))
    rw [value_cons] at hlt ⊢
    have hstep : shiftIn a c = some (16 * a + d) := by
      rw [shiftIn, hc.digitValue?, Option.bind_some, if_pos (by omega)]
    rw [List.foldlM_cons, hstep]
    exact ih _ hlt

theorem word?_of_spells (h : Spells cs w.toNat) : word? cs = some w := by
  obtain ⟨hne, ds, hdigits, hvalue⟩ := h
  have hlt := w.toNat_lt
  have hread := foldlM_shiftIn_of_forall₂ hdigits 0 (by omega)
  have hcs : cs.isEmpty = false := by simpa using hne
  rw [word?, hcs, if_neg Bool.false_ne_true, hread, hvalue]
  simp

theorem forall₂_of_foldlM_shiftIn {a : Nat} (ha : a < 65536) (h : cs.foldlM shiftIn a = some n) :
    n < 65536 ∧ ∃ ds, List.Forall₂ IsDigit cs ds ∧
      a * 16 ^ ds.length + Nat.ofDigits 16 ds.reverse = n := by
  induction cs generalizing a with
  | nil =>
    obtain rfl : a = n := by simpa using h
    exact ⟨ha, [], .nil, by simp⟩
  | cons c cs ih =>
    rw [List.foldlM_cons] at h
    obtain ⟨b, hb, hrest⟩ := Option.bind_eq_some_iff.mp h
    obtain ⟨d, hd, hb⟩ := Option.bind_eq_some_iff.mp hb
    obtain ⟨hlt, hb⟩ := Option.ite_none_right_eq_some.mp hb
    obtain rfl := Option.some.inj hb
    obtain ⟨hn, ds, hds, hvalue⟩ := ih hlt hrest
    exact ⟨hn, d :: ds, .cons (isDigit_of_digitValue? hd) hds, by rw [value_cons, hvalue]⟩

theorem spells_of_word? (h : word? cs = some w) : Spells cs w.toNat := by
  unfold word? at h
  split at h
  · contradiction
  · next hne =>
    obtain ⟨n, hread, rfl⟩ := Option.map_eq_some_iff.mp h
    obtain ⟨hn, ds, hdigits, hvalue⟩ := forall₂_of_foldlM_shiftIn (by decide) hread
    refine ⟨by simpa using hne, ds, hdigits, ?_⟩
    rw [UInt16.toNat_ofNat_of_lt' hn]
    simpa using hvalue

theorem word?_eq_some_iff : word? cs = some w ↔ Spells cs w.toNat :=
  ⟨spells_of_word?, word?_of_spells⟩

theorem signedWord?_of_notMem (h : '+' ∉ cs) : signedWord? cs = word? cs := by
  unfold signedWord?
  split
  · simp at h
  · rfl

theorem afterRadix_of_notMem (hx : 'x' ∉ cs) (hX : 'X' ∉ cs) : afterRadix cs = cs := by
  unfold afterRadix
  split
  · simp at hx
  · simp at hX
  · rfl

theorem Spells.notMem (h : Spells cs n) : 'x' ∉ cs ∧ 'X' ∉ cs ∧ '+' ∉ cs := by
  have hother : ∀ c ∈ cs, (c != 'x' && c != 'X' && c != '+') = true :=
    h.forall_mem (by decide) (by decide)
  refine ⟨fun hmem => ?_, fun hmem => ?_, fun hmem => ?_⟩
  all_goals simpa using hother _ hmem

theorem Spells.isBlank_of_mem (h : Spells cs n) (hc : c ∈ cs) : isBlank c = false := by
  have hsolid := h.forall_mem (p := fun c => !isBlank c) (by decide) (by decide) c hc
  simpa using hsolid

theorem afterRadix_of_spells (h : Spells cs n) : afterRadix cs = cs :=
  afterRadix_of_notMem h.notMem.1 h.notMem.2.1

theorem spells_digits {width : Nat} (hwidth : width ≠ 0) (hn : n < 16 ^ width) :
    Spells (digits width n) n := by
  refine ⟨fun h => hwidth (by simpa using congrArg List.length h), ?_⟩
  clear hwidth
  induction width generalizing n with
  | zero =>
    obtain rfl : n = 0 := by omega
    exact ⟨[], .nil, rfl⟩
  | succ width ih =>
    have hhigh : n / 16 < 16 ^ width := by
      rw [Nat.div_lt_iff_lt_mul (by decide), ← Nat.pow_succ]
      exact hn
    obtain ⟨ds, hdigits, hvalue⟩ := ih hhigh
    have hlast := isDigit_digit (Nat.mod_lt n (by decide : 16 > 0))
    refine ⟨ds ++ [n % 16], List.rel_append hdigits (.cons hlast .nil), ?_⟩
    rw [List.reverse_append, List.reverse_singleton, List.singleton_append, Nat.ofDigits_cons,
      hvalue]
    omega

theorem spells_word (w : Word) : Spells (digits 4 w.toNat) w.toNat :=
  spells_digits (by decide) w.toNat_lt

theorem word?_digits (w : Word) : word? (digits 4 w.toNat) = some w :=
  word?_of_spells (spells_word w)

theorem digits_inj {width : Nat} {w w' : Word} (hwidth : width ≠ 0) (hw : w.toNat < 16 ^ width)
    (hw' : w'.toNat < 16 ^ width) :
    digits width w.toNat = digits width w'.toNat ↔ w = w' := by
  refine ⟨fun h => ?_, fun h => by rw [h]⟩
  have hread := word?_of_spells (spells_digits hwidth hw)
  rw [h, word?_of_spells (spells_digits hwidth hw')] at hread
  exact (Option.some.inj hread).symm

end WordMachine.Text.Hex
