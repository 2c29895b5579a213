import WordMachine.Assembly.Statement
import WordMachine.Image
import WordMachine.Proofs.Text.Numerals
import WordMachine.Proofs.Text.Splitting

/-!
# Readers of words

Words are read in images, where a sign may stand before the digits, and behind the dollar sign of
the assembler, where none may. Both readers accept their grammar and nothing else, and they give the
same word where both accept. An image is read up to the first token that is no word, which its error
names.
-/

namespace WordMachine

namespace Text.Hex

def IsRadix (cs : List Char) : Prop := cs = [] ∨ cs = "0x".toList ∨ cs = "0X".toList

def IsSign (cs : List Char) : Prop := cs = [] ∨ cs = "+".toList

/-- An optional radix and the digits of the word. -/
def Unsigned (cs : List Char) (w : Word) : Prop :=
  ∃ radix numeral, IsRadix radix ∧ Spells numeral w.toNat ∧ cs = radix ++ numeral

/-- An optional radix, an optional sign and the digits of the word. -/
def Signed (cs : List Char) (w : Word) : Prop :=
  ∃ radix sign numeral, IsRadix radix ∧ IsSign sign ∧ Spells numeral w.toNat ∧
    cs = radix ++ sign ++ numeral

variable {cs : List Char} {w : Word} {n : Nat}

theorem signedWord?_eq_some_iff : signedWord? cs = some w ↔
    ∃ sign numeral, IsSign sign ∧ Spells numeral w.toNat ∧ cs = sign ++ numeral := by
  constructor
  · intro h
    unfold signedWord? at h
    split at h
    · next rest => exact ⟨"+".toList, rest, .inr rfl, word?_eq_some_iff.mp h, rfl⟩
    · exact ⟨[], cs, .inl rfl, word?_eq_some_iff.mp h, rfl⟩
  · rintro ⟨sign, numeral, rfl | rfl, hnumeral, rfl⟩
    · exact (signedWord?_of_notMem hnumeral.notMem.2.2).trans (word?_eq_some_iff.mpr hnumeral)
    · exact word?_eq_some_iff.mpr hnumeral

theorem exists_radix (cs : List Char) : ∃ radix, IsRadix radix ∧ cs = radix ++ afterRadix cs := by
  unfold afterRadix
  split
  · exact ⟨"0x".toList, .inr (.inl rfl), rfl⟩
  · exact ⟨"0X".toList, .inr (.inr rfl), rfl⟩
  · exact ⟨[], .inl rfl, rfl⟩

theorem afterRadix_append {radix rest : List Char} (hradix : IsRadix radix) (hx : 'x' ∉ rest)
    (hX : 'X' ∉ rest) : afterRadix (radix ++ rest) = rest := by
  rcases hradix with rfl | rfl | rfl
  · exact afterRadix_of_notMem hx hX
  · rfl
  · rfl

theorem unsigned_iff_word? : word? (afterRadix cs) = some w ↔ Unsigned cs w := by
  constructor
  · intro h
    obtain ⟨radix, hradix, hcs⟩ := exists_radix cs
    exact ⟨radix, _, hradix, word?_eq_some_iff.mp h, hcs⟩
  · rintro ⟨radix, numeral, hradix, hnumeral, rfl⟩
    obtain ⟨hx, hX, -⟩ := hnumeral.notMem
    rw [afterRadix_append hradix hx hX]
    exact word?_eq_some_iff.mpr hnumeral

theorem signed_iff_signedWord? : signedWord? (afterRadix cs) = some w ↔ Signed cs w := by
  constructor
  · intro h
    obtain ⟨radix, hradix, hcs⟩ := exists_radix cs
    obtain ⟨sign, numeral, hsign, hnumeral, hrest⟩ := signedWord?_eq_some_iff.mp h
    refine ⟨radix, sign, numeral, hradix, hsign, hnumeral, ?_⟩
    rw [List.append_assoc, ← hrest]
    exact hcs
  · rintro ⟨radix, sign, numeral, hradix, hsign, hnumeral, rfl⟩
    obtain ⟨hx, hX, -⟩ := hnumeral.notMem
    have hsign' : 'x' ∉ sign ∧ 'X' ∉ sign := by rcases hsign with rfl | rfl <;> decide
    rw [List.append_assoc, afterRadix_append hradix]
    · exact signedWord?_eq_some_iff.mpr ⟨sign, numeral, hsign, hnumeral, rfl⟩
    · exact List.not_mem_append hsign'.1 hx
    · exact List.not_mem_append hsign'.2 hX

theorem unsigned_iff : Unsigned cs w ↔ Signed cs w ∧ '+' ∉ cs := by
  constructor
  · rintro ⟨radix, numeral, hradix, hnumeral, rfl⟩
    have hplus : '+' ∉ radix := by rcases hradix with rfl | rfl | rfl <;> decide
    refine ⟨⟨radix, [], numeral, hradix, .inl rfl, hnumeral, by simp⟩, ?_⟩
    exact List.not_mem_append hplus hnumeral.notMem.2.2
  · rintro ⟨⟨radix, sign, numeral, hradix, rfl | rfl, hnumeral, rfl⟩, hplus⟩
    · exact ⟨radix, numeral, hradix, hnumeral, by simp⟩
    · simp at hplus

theorem Unsigned.isBlank_of_mem (h : Unsigned cs w) : ∀ c ∈ cs, isBlank c = false := by
  obtain ⟨radix, numeral, hradix, hnumeral, rfl⟩ := h
  have hradix' : radix.all (!isBlank ·) = true := by
    rcases hradix with rfl | rfl | rfl <;> decide
  have hnumeral' : ∀ c ∈ numeral, (!isBlank c) = true :=
    hnumeral.forall_mem (by decide) (by decide)
  intro c hc
  rw [← Bool.not_eq_true']
  exact (List.mem_append.mp hc).elim (List.all_eq_true.mp hradix' c) (hnumeral' c)

theorem Unsigned.ne_nil (h : Unsigned cs w) : cs ≠ [] := by
  obtain ⟨radix, numeral, -, ⟨hne, -⟩, rfl⟩ := h
  exact List.append_ne_nil_of_right_ne_nil radix hne

end Text.Hex

namespace Image

open Text.Hex (Signed)

variable {tokens : List String} {words : Array Word}

theorem readWord?_eq_some_iff {token : String} {w : Word} :
    readWord? token = some w ↔ Signed token.toList w :=
  Text.Hex.signed_iff_signedWord?

theorem readWord?_eq_none_iff {token : String} :
    readWord? token = none ↔ ∀ w, ¬Signed token.toList w := by
  simp only [Option.eq_none_iff_forall_ne_some, Ne, readWord?_eq_some_iff]

theorem readWords_eq_ok_iff {result : Array Word} : readWords tokens words = .ok result ↔
    ∃ ws, List.Forall₂ (fun token w => Signed token.toList w) tokens ws ∧
      result = words ++ ws.toArray := by
  induction tokens generalizing words with
  | nil => simp [readWords, eq_comm]
  | cons token tokens ih =>
    rw [readWords]
    split
    · next w hw =>
      rw [ih]
      constructor
      · rintro ⟨ws, hws, rfl⟩
        exact ⟨w :: ws, .cons (readWord?_eq_some_iff.mp hw) hws, by simp⟩
      · rintro ⟨_, hws, rfl⟩
        cases hws with
        | @cons _ w' _ ws hw' hws =>
          obtain rfl := Option.some.inj (hw.symm.trans (readWord?_eq_some_iff.mpr hw'))
          exact ⟨ws, hws, by simp⟩
    · next hnone =>
      constructor
      · intro h
        contradiction
      · rintro ⟨_, hws, -⟩
        cases hws with
        | cons hw => exact absurd hw (readWord?_eq_none_iff.mp hnone _)

theorem readWords_eq_error_iff {e : ImageError} : readWords tokens words = .error e ↔
    ∃ index token, tokens[index]? = some token ∧ (∀ w, ¬Signed token.toList w) ∧
      (∀ earlier ∈ tokens.take index, ∃ w, Signed earlier.toList w) ∧
      e = .invalidWord (words.size + index) token := by
  induction tokens generalizing words with
  | nil => simp [readWords]
  | cons token tokens ih =>
    rw [readWords]
    split
    · next w hw =>
      have hsigned := readWord?_eq_some_iff.mp hw
      rw [ih]
      constructor
      · rintro ⟨index, bad, hbad, hnone, hearlier, rfl⟩
        refine ⟨index + 1, bad, by simpa using hbad, hnone, ?_, ?_⟩
        · exact List.forall_mem_cons.mpr ⟨⟨w, hsigned⟩, hearlier⟩
        · rw [Array.size_push, Nat.add_assoc, Nat.add_comm 1]
      · rintro ⟨index, bad, hbad, hnone, hearlier, rfl⟩
        cases index with
        | zero =>
          obtain rfl : token = bad := by simpa using hbad
          exact absurd hsigned (hnone w)
        | succ index =>
          refine ⟨index, bad, by simpa using hbad, hnone, ?_, ?_⟩
          · exact (List.forall_mem_cons.mp hearlier).2
          · rw [Array.size_push, Nat.add_assoc, Nat.add_comm 1]
    · next hnone =>
      have hunsigned := readWord?_eq_none_iff.mp hnone
      constructor
      · intro h
        exact ⟨0, token, rfl, hunsigned, by simp, (Except.error.inj h).symm⟩
      · rintro ⟨index, bad, hbad, -, hearlier, rfl⟩
        cases index with
        | zero =>
          obtain rfl : token = bad := by simpa using hbad
          rfl
        | succ index =>
          obtain ⟨w, hw⟩ := (List.forall_mem_cons.mp hearlier).1
          exact absurd hw (hunsigned w)

variable {text : String} {size : MemorySize}

theorem parse_eq_ok_iff {image : Image} : parse text size = .ok image ↔
    ∃ ws, List.Forall₂ (fun token w => Signed token.toList w)
      ((Text.fields text).take size.words) ws ∧ image = ofWords ws.toArray := by
  rw [parse]
  constructor
  · intro h
    cases hread : readWords ((Text.fields text).take size.words) #[] with
    | error e =>
      rw [hread] at h
      contradiction
    | ok words =>
      rw [hread] at h
      obtain ⟨ws, hws, rfl⟩ := readWords_eq_ok_iff.mp hread
      exact ⟨ws, hws, by simpa using (Except.ok.inj h).symm⟩
  · rintro ⟨ws, hws, rfl⟩
    have hread : readWords ((Text.fields text).take size.words) #[] = .ok (#[] ++ ws.toArray) :=
      readWords_eq_ok_iff.mpr ⟨ws, hws, rfl⟩
    rw [hread, Array.empty_append]
    rfl

theorem parse_eq_error_iff {e : ImageError} : parse text size = .error e ↔
    ∃ index token, ((Text.fields text).take size.words)[index]? = some token ∧
      (∀ w, ¬Signed token.toList w) ∧
      (∀ earlier ∈ ((Text.fields text).take size.words).take index,
        ∃ w, Signed earlier.toList w) ∧ e = .invalidWord index token := by
  have herror : parse text size = .error e ↔
      readWords ((Text.fields text).take size.words) #[] = .error e := by
    rw [parse]
    cases readWords ((Text.fields text).take size.words) #[] <;> simp [Except.map]
  simp [herror, readWords_eq_error_iff]

theorem parse_single {token : String} {w : Word} (htext : Text.fields text = [token]) :
    parse text size = .ok (ofWords #[w]) ↔ Signed token.toList w := by
  have htake : [token].take size.words = [token] := List.take_of_length_le size.words_pos
  rw [parse_eq_ok_iff, htext, htake]
  constructor
  · rintro ⟨_, hws, hw⟩
    cases hws with
    | cons hw' hrest =>
      cases hrest
      obtain rfl : w = _ := by simpa [ofWords] using hw
      exact hw'
  · intro hw
    exact ⟨[w], .cons hw .nil, rfl⟩

end Image

namespace Assembly

open Text.Hex (Unsigned)

variable {token : String} {cs : List Char} {w : Word}

theorem number?_eq_none_iff : number? token = .ok none ↔ token.toList.head? ≠ some '$' := by
  unfold number?
  split
  · rename_i cs hcs
    rw [hcs]
    cases Text.Hex.word? (Text.Hex.afterRadix cs) <;> simp
  · rename_i hother
    refine ⟨fun _ hhead => ?_, fun _ => rfl⟩
    obtain ⟨cs, hcs⟩ := List.head?_eq_some_iff.mp hhead
    exact hother cs hcs

theorem number?_of_unsigned (h : token.toList = '$' :: cs) (hcs : Unsigned cs w) :
    number? token = .ok (some w) := by
  simp only [number?, h, Text.Hex.unsigned_iff_word?.mpr hcs]

theorem number?_of_not_unsigned (h : token.toList = '$' :: cs) (hcs : ∀ w, ¬Unsigned cs w) :
    number? token = .error (.malformedNumber token) := by
  have hnone : Text.Hex.word? (Text.Hex.afterRadix cs) = none := by
    simpa only [Option.eq_none_iff_forall_ne_some, Ne, Text.Hex.unsigned_iff_word?] using hcs
  simp only [number?, h, hnone]

theorem number?_cases (token : String) : number? token = .ok none ∨
    ∃ cs, token.toList = '$' :: cs ∧
      ((∃ w, Unsigned cs w ∧ number? token = .ok (some w)) ∨
        (∀ w, ¬Unsigned cs w) ∧ number? token = .error (.malformedNumber token)) := by
  by_cases hhead : token.toList.head? = some '$'
  · obtain ⟨cs, hcs⟩ := List.head?_eq_some_iff.mp hhead
    refine .inr ⟨cs, hcs, ?_⟩
    by_cases hword : ∃ w, Unsigned cs w
    · obtain ⟨w, hw⟩ := hword
      exact .inl ⟨w, hw, number?_of_unsigned hcs hw⟩
    · rw [not_exists] at hword
      exact .inr ⟨hword, number?_of_not_unsigned hcs hword⟩
  · exact .inl (number?_eq_none_iff.mpr hhead)

theorem number?_eq_some_iff : number? token = .ok (some w) ↔
    ∃ cs, token.toList = '$' :: cs ∧ Unsigned cs w := by
  constructor
  · intro h
    rcases number?_cases token with hnone | ⟨cs, hcs, ⟨w', hw', hsome⟩ | ⟨-, herror⟩⟩
    · simp [hnone] at h
    · obtain rfl : w = w' := by simpa [hsome, eq_comm] using h
      exact ⟨cs, hcs, hw'⟩
    · simp [herror] at h
  · rintro ⟨cs, hcs, hw⟩
    exact number?_of_unsigned hcs hw

theorem number?_eq_error_iff {cause : Cause} : number? token = .error cause ↔
    cause = .malformedNumber token ∧ ∃ cs, token.toList = '$' :: cs ∧ ∀ w, ¬Unsigned cs w := by
  constructor
  · intro h
    rcases number?_cases token with hnone | ⟨cs, hcs, ⟨w', -, hsome⟩ | ⟨hmalformed, herror⟩⟩
    · simp [hnone] at h
    · simp [hsome] at h
    · rw [herror] at h
      exact ⟨(Except.error.inj h).symm, cs, hcs, hmalformed⟩
  · rintro ⟨rfl, cs, hcs, hmalformed⟩
    exact number?_of_not_unsigned hcs hmalformed

end Assembly

open Text.Hex (Signed Unsigned) in
/-- Both readers accept their grammar and nothing else. An image is read as far as the memory
reaches, and the first token there that is no word is the one that its error names. Behind a dollar
sign a token gives the word that it gives in an image, unless it has a sign. -/
theorem readers_accept_numerals (size : MemorySize) :
    (∀ text,
      let tokens := (Text.fields text).take size.words
      (∀ image, Image.parse text size = .ok image ↔
        ∃ ws, List.Forall₂ (fun token w => Signed token.toList w) tokens ws ∧
          image = .ofWords ws.toArray) ∧
      ∀ e, Image.parse text size = .error e ↔
        ∃ index token, tokens[index]? = some token ∧ (∀ w, ¬Signed token.toList w) ∧
          (∀ earlier ∈ tokens.take index, ∃ w, Signed earlier.toList w) ∧
          e = .invalidWord index token) ∧
    (∀ token,
      (Assembly.number? token = .ok none ↔ token.toList.head? ≠ some '$') ∧
      (∀ w, Assembly.number? token = .ok (some w) ↔
        ∃ cs, token.toList = '$' :: cs ∧ Unsigned cs w) ∧
      ∀ cause, Assembly.number? token = .error cause ↔ cause = .malformedNumber token ∧
        ∃ cs, token.toList = '$' :: cs ∧ ∀ w, ¬Unsigned cs w) ∧
    ∀ token w,
      (Assembly.number? ("$" ++ token) = .ok (some w) → Text.fields token = [token]) ∧
      ∀ text, Text.fields text = [token] →
        (Assembly.number? ("$" ++ token) = .ok (some w) ↔
          Image.parse text size = .ok (.ofWords #[w]) ∧ '+' ∉ token.toList) := by
  refine ⟨fun text => ⟨fun image => Image.parse_eq_ok_iff, fun e => Image.parse_eq_error_iff⟩,
    fun token => ⟨Assembly.number?_eq_none_iff, fun w => Assembly.number?_eq_some_iff,
      fun cause => Assembly.number?_eq_error_iff⟩, fun token w => ?_⟩
  have hdollar : Assembly.number? ("$" ++ token) = .ok (some w) ↔ Unsigned token.toList w := by
    rw [Assembly.number?_eq_some_iff]
    have hlist : ("$" ++ token).toList = '$' :: token.toList := by simp
    rw [hlist]
    simp
  rw [hdollar]
  refine ⟨fun hw => ?_, fun text htext => ?_⟩
  · rw [Text.fields, Text.splitFields_singleton hw.isBlank_of_mem hw.ne_nil]
    simp
  · rw [Text.Hex.unsigned_iff, Image.parse_single htext]

theorem readers_accept_numerals_single :
    Text.fields " 0X00aF\n" = ["0X00aF"] ∧ Assembly.number? "$0X00aF" = .ok (some 0xAF) := by
  have htext : Text.fields " 0X00aF\n" = ["0X00aF"] := by decide
  obtain ⟨-, -, hboth⟩ := readers_accept_numerals .standard
  have hread : Image.parse " 0X00aF\n" .standard = .ok (.ofWords #[0xAF]) := by decide
  exact ⟨htext, ((hboth "0X00aF" 0xAF).2 _ htext).mpr ⟨hread, by decide⟩⟩

end WordMachine
