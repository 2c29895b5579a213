import Mathlib.Data.List.Basic
import WordMachine.Assembly.Journal
import WordMachine.Proofs.Image.RoundTrip

/-!
# Log records read back

The log tells of every word that the assembler writes, in one of three forms. A record is read by
its columns, and what it is read as must have that very record: so no record is misread.
-/

namespace WordMachine.Assembly

inductive Change
  | emitted (address : Nat) (word : Word)
  | stored (address : Nat) (word : Word)
  | patched (address : Nat) (name : String) (value : Word)
  deriving DecidableEq, Repr

namespace Change

def address : Change → Nat
  | emitted address _ | stored address _ | patched address _ _ => address

def record : Change → LogRecord
  | emitted address word =>
    ⟨.trace, Text.Hex.padded 4 address ++ ": " ++ Text.Hex.word word⟩
  | stored address word =>
    ⟨.trace, "set " ++ Text.Hex.padded 4 address ++ " = " ++ Text.Hex.word word⟩
  | patched address name value =>
    ⟨.debug, "patched " ++ Text.Hex.padded 4 address ++ " -> " ++ name ++
      " (" ++ Text.Hex.word value ++ ")"⟩

/-- The four digits that start in this column, 0 if they are none. -/
def wordAt (cs : List Char) (column : Nat) : Word :=
  (Text.Hex.word? ((cs.drop column).take 4)).getD 0

/-- The colon behind an address tells an emitted word from a stored one. A name stands between
sixteen characters before it and seven behind it. -/
def ofColumns (r : LogRecord) : Change :=
  let cs := r.text.toList
  if r.level = .debug then
    patched (wordAt cs 8).toNat (String.ofList ((cs.drop 16).take (cs.length - 23)))
      (wordAt cs (cs.length - 5))
  else if cs[4]? = some ':' then emitted (wordAt cs 0).toNat (wordAt cs 6)
  else stored (wordAt cs 4).toNat (wordAt cs 11)

def ofRecord? (r : LogRecord) : Option Change :=
  if (ofColumns r).record = r then some (ofColumns r) else none

theorem wordAt_eq {cs : List Char} {column : Nat} {w : Word} (before after : List Char)
    (hcs : cs = before ++ (Text.Hex.digits 4 w.toNat ++ after)) (hcolumn : before.length = column) :
    wordAt cs column = w := by
  have htake : (Text.Hex.digits 4 w.toNat ++ after).take 4 = Text.Hex.digits 4 w.toNat :=
    List.take_left' (Text.Hex.length_digits 4 _)
  rw [wordAt, hcs, List.drop_left' hcolumn, htake, Text.Hex.word?_digits, Option.getD_some]

theorem exists_word {n : Nat} (h : n < 65536) : ∃ w : Word, n = w.toNat :=
  ⟨UInt16.ofNat n, by simp [Nat.mod_eq_of_lt h]⟩

theorem ofColumns_emitted (a w : Word) :
    ofColumns (emitted a.toNat w).record = emitted a.toNat w := by
  have htext : (emitted a.toNat w).record.text.toList =
      Text.Hex.digits 4 a.toNat ++ ([':', ' '] ++ Text.Hex.digits 4 w.toNat) := by
    simp [record, Text.Hex.padded, Text.Hex.word]
  have ha : wordAt (emitted a.toNat w).record.text.toList 0 = a :=
    wordAt_eq [] _ htext rfl
  have hw : wordAt (emitted a.toNat w).record.text.toList 6 = w :=
    wordAt_eq (Text.Hex.digits 4 a.toNat ++ [':', ' ']) [] (by simp [htext]) (by simp)
  have hcolon : (emitted a.toNat w).record.text.toList[4]? = some ':' := by
    rw [htext, List.getElem?_append_right (by simp)]
    simp
  have hlevel : (emitted a.toNat w).record.level ≠ .debug := by simp [record]
  rw [ofColumns, if_neg hlevel, if_pos hcolon, ha, hw]

theorem ofColumns_stored (a w : Word) :
    ofColumns (stored a.toNat w).record = stored a.toNat w := by
  have htext : (stored a.toNat w).record.text.toList = ['s', 'e', 't', ' '] ++
      (Text.Hex.digits 4 a.toNat ++ ([' ', '=', ' '] ++ Text.Hex.digits 4 w.toNat)) := by
    simp [record, Text.Hex.padded, Text.Hex.word]
  have ha : wordAt (stored a.toNat w).record.text.toList 4 = a := wordAt_eq _ _ htext rfl
  have hw : wordAt (stored a.toNat w).record.text.toList 11 = w :=
    wordAt_eq (['s', 'e', 't', ' '] ++ Text.Hex.digits 4 a.toNat ++ [' ', '=', ' ']) []
      (by simp [htext]) (by simp)
  -- the fifth character is the first digit of the address
  have hcolon : (stored a.toNat w).record.text.toList[4]? ≠ some ':' := by
    intro h
    have hmem : ':' ∈ Text.Hex.digits 4 a.toNat := by
      rw [htext, List.getElem?_append_right (by simp), List.getElem?_append_left (by simp)] at h
      exact List.mem_of_getElem? h
    have hdigit := (Text.Hex.spells_word a).forall_mem (p := (· != ':')) (by decide) (by decide)
    simpa using hdigit _ hmem
  have hlevel : (stored a.toNat w).record.level ≠ .debug := by simp [record]
  rw [ofColumns, if_neg hlevel, if_neg hcolon, ha, hw]

theorem ofColumns_patched (a w : Word) (name : String) :
    ofColumns (patched a.toNat name w).record = patched a.toNat name w := by
  have htext : (patched a.toNat name w).record.text.toList = "patched ".toList ++
      (Text.Hex.digits 4 a.toNat ++ ([' ', '-', '>', ' '] ++
        (name.toList ++ ([' ', '('] ++ (Text.Hex.digits 4 w.toNat ++ [')']))))) := by
    simp [record, Text.Hex.padded, Text.Hex.word]
  have hlength : (patched a.toNat name w).record.text.toList.length = 23 + name.toList.length := by
    rw [htext]
    simp
    omega
  have ha : wordAt (patched a.toNat name w).record.text.toList 8 = a := wordAt_eq _ _ htext rfl
  have hw : wordAt (patched a.toNat name w).record.text.toList
      ((patched a.toNat name w).record.text.toList.length - 5) = w := by
    refine wordAt_eq ("patched ".toList ++ Text.Hex.digits 4 a.toNat ++
      [' ', '-', '>', ' '] ++ name.toList ++ [' ', '(']) [')'] ?_ ?_
    · simp [htext]
    · rw [hlength]
      simp
      omega
  have hbehind : (patched a.toNat name w).record.text.toList.drop 16 =
      name.toList ++ ([' ', '('] ++ (Text.Hex.digits 4 w.toNat ++ [')'])) := by
    rw [htext, ← List.append_assoc, ← List.append_assoc]
    exact List.drop_left' (by simp)
  have hname : ((patched a.toNat name w).record.text.toList.drop 16).take
      ((patched a.toNat name w).record.text.toList.length - 23) = name.toList := by
    rw [hbehind, hlength, Nat.add_sub_cancel_left, List.take_left]
  have hlevel : (patched a.toNat name w).record.level = .debug := rfl
  rw [ofColumns, if_pos hlevel, ha, hw, hname, String.ofList_toList]

theorem ofRecord?_record {c : Change} (h : c.address < 65536) : ofRecord? c.record = some c := by
  obtain ⟨a, ha⟩ := exists_word h
  have hcolumns : ofColumns c.record = c := by
    cases c with
    | emitted address word =>
      obtain rfl := ha
      exact ofColumns_emitted a word
    | stored address word =>
      obtain rfl := ha
      exact ofColumns_stored a word
    | patched address name value =>
      obtain rfl := ha
      exact ofColumns_patched a value name
  rw [ofRecord?, hcolumns, if_pos rfl]

theorem ofRecord?_of_head {r : LogRecord} (hlevel : r.level = .debug)
    (h : r.text.toList.head? ≠ some 'p') : ofRecord? r = none := by
  rw [ofRecord?, if_neg]
  intro hrecord
  rw [ofColumns, if_pos hlevel] at hrecord
  apply h
  rw [← hrecord]
  simp [record]

end Change

def changesOf (records : List LogRecord) : List Change := records.filterMap Change.ofRecord?

def Entry.change? : Entry → Option Change
  | emitted address word _ => some (.emitted address word)
  | stored address word => some (.stored address word)
  | patched address name value => some (.patched address name value)
  | defined _ | reserved _ _ | captured _ _ | expanding _ _ => none

theorem Entry.record?_of_change? {e : Entry} {c : Change} (h : e.change? = some c) :
    e.record? = some c.record := by
  cases e with
  | emitted | stored | patched =>
    obtain rfl := Option.some.inj h
    rfl
  | _ => contradiction

theorem Entry.ofRecord?_of_unchanged {e : Entry} (h : e.change? = none) :
    e.record?.bind Change.ofRecord? = none := by
  cases e with
  | captured name lines =>
    rw [record?, Option.bind_some, Change.ofRecord?_of_head rfl (by simp)]
  | expanding name depth =>
    rw [record?, Option.bind_some, Change.ofRecord?_of_head rfl (by simp)]
  | defined | reserved => rfl
  | _ => contradiction

def Journal.changes (j : Journal) : List Change := j.toList.filterMap Entry.change?

theorem Journal.changes_push (j : Journal) (e : Entry) :
    changes (j.push e) = j.changes ++ e.change?.toList := by
  cases h : e.change? <;> simp [changes, h]

theorem Journal.changesOf_records (j : Journal) (h : ∀ c ∈ j.changes, c.address < 65536) :
    changesOf j.records = j.changes := by
  rw [changesOf, records, List.filterMap_filterMap]
  refine List.filterMap_congr ?_
  intro e he
  cases hc : e.change? with
  | none => exact Entry.ofRecord?_of_unchanged hc
  | some c =>
    have haddress := h c (List.mem_filterMap.mpr ⟨e, he, hc⟩)
    rw [Entry.record?_of_change? hc, Option.bind_some, Change.ofRecord?_record haddress]

/-- A record that is not read as a change is that of a macro captured or expanded. -/
theorem Journal.of_unread (j : Journal) (h : ∀ c ∈ j.changes, c.address < 65536) {r : LogRecord}
    (hr : r ∈ j.records) (hunread : Change.ofRecord? r = none) : r.level = .debug ∧
      ∃ rest, r.text = "captured macro " ++ rest ∨ r.text = "expanding macro " ++ rest := by
  obtain ⟨e, he, hrecord⟩ := List.mem_filterMap.mp hr
  cases hc : e.change? with
  | some c =>
    have haddress := h c (List.mem_filterMap.mpr ⟨e, he, hc⟩)
    obtain rfl : c.record = r := Option.some.inj ((Entry.record?_of_change? hc).symm.trans hrecord)
    rw [Change.ofRecord?_record haddress] at hunread
    contradiction
  | none =>
    cases e with
    | captured name lines =>
      obtain rfl := Option.some.inj hrecord
      exact ⟨rfl, name ++ (": " ++ (toString lines ++ " lines")),
        .inl (by simp only [String.append_assoc])⟩
    | expanding name depth =>
      obtain rfl := Option.some.inj hrecord
      exact ⟨rfl, name ++ (" at depth " ++ toString depth),
        .inr (by simp only [String.append_assoc])⟩
    | defined | reserved => contradiction
    | emitted | stored | patched => contradiction

end WordMachine.Assembly
