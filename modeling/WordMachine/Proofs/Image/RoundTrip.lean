import WordMachine.Image
import WordMachine.Proofs.Text.Numerals
import WordMachine.Proofs.Text.Splitting

/-!
# Images as text

Every word is written as four hexadecimal digits, and a digit is no blank, no sign and no radix
letter. So the fields of the text are the words again, and each field reads as its word.
-/

namespace WordMachine.Image

open Text

theorem readWord?_word (w : Word) : readWord? (Hex.word w) = some w := by
  have hspells := Hex.spells_word w
  rw [readWord?, Hex.word, Hex.padded, String.toList_ofList, Hex.afterRadix_of_spells hspells,
    Hex.signedWord?_of_notMem hspells.notMem.2.2, Hex.word?_of_spells hspells]

theorem readWords_word (ws : List Word) (before : Array Word) :
    readWords (ws.map Hex.word) before = .ok (before ++ ws.toArray) := by
  induction ws generalizing before with
  | nil => simp [readWords]
  | cons w ws ih =>
    rw [List.map_cons, readWords, readWord?_word]
    simp [ih]

theorem fields_wordLines (ws : List Word) :
    fields (String.join (ws.map wordLine)) = ws.map Hex.word := by
  rw [fields, String.toList_join]
  induction ws with
  | nil => rfl
  | cons w ws ih =>
    have hline : (wordLine w).toList = Hex.digits 4 w.toNat ++ ['\n'] := by
      simp [wordLine, Hex.word, Hex.padded]
    have hspells := Hex.spells_word w
    rw [List.map_cons, List.flatMap_cons, hline, List.append_assoc, List.singleton_append,
      splitFields_append_cons (fun c => hspells.isBlank_of_mem) hspells.1 (by decide),
      List.map_cons, ih]
    rfl

/-- What is saved is read again, as far as the memory reaches. -/
theorem parse_text (image : Image) (size : MemorySize) :
    parse image.text size = .ok (ofWords (image.savedWords.extract 0 size.words)) := by
  have hwords : #[] ++ (image.savedWords.toList.take size.words).toArray =
      image.savedWords.extract 0 size.words := by
    apply Array.ext'
    simp
  rw [parse, text, fields_wordLines, ← List.map_take, readWords_word, hwords]
  rfl

end WordMachine.Image
