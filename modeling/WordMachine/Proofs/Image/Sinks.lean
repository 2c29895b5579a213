import Mathlib.Data.List.TakeWhile
import WordMachine.Image.Sink
import WordMachine.Proofs.Text.Octets

/-!
# Images on sinks

A sink with room for so many octets receives the first octets of the text of an image, however it
divides what it is offered. The pieces in which a line is offered make up the line, and what one
piece finds no room for, no later piece does.
-/

namespace WordMachine

namespace Text.Hex

theorem digits_zero (width : Nat) : digits width 0 = List.replicate width '0' := by
  induction width with
  | zero => rfl
  | succ width ih =>
    rw [digits, Nat.zero_div, ih, List.replicate_succ']
    rfl

theorem digits_add {width n : Nat} (h : n < 16 ^ width) (more : Nat) :
    digits (more + width) n = List.replicate more '0' ++ digits width n := by
  induction width generalizing n with
  | zero =>
    obtain rfl : n = 0 := by omega
    rw [Nat.add_zero, digits_zero, digits, List.append_nil]
  | succ width ih =>
    rw [← Nat.add_assoc, digits, digits, ih (by rw [pow_succ] at h; omega), List.append_assoc]

theorem replicate_append_dropWhile (c : Char) (cs : List Char) :
    List.replicate (cs.length - (cs.dropWhile (· = c)).length) c ++ cs.dropWhile (· = c) = cs := by
  induction cs with
  | nil => rfl
  | cons d cs ih =>
    by_cases hd : d = c
    · have hle := cs.length_dropWhile_le (· = c)
      have hsucc : (d :: cs).length - (cs.dropWhile (· = c)).length =
          cs.length - (cs.dropWhile (· = c)).length + 1 := by
        rw [List.length_cons]
        omega
      rw [List.dropWhile_cons_of_pos (by simpa using hd), hsucc, List.replicate_succ,
        List.cons_append, ih, hd]
    · rw [List.dropWhile_cons_of_neg (by simpa using hd), Nat.sub_self]
      rfl

theorem replicate_append_plain {width n : Nat} (hwidth : width ≠ 0) (hwidth' : width ≤ 8)
    (h : n < 16 ^ width) :
    List.replicate (width - (plain n).length) '0' ++ (plain n).toList = digits width n := by
  have hwide : digits 8 n = List.replicate (8 - width) '0' ++ digits width n := by
    rw [← digits_add h, Nat.sub_add_cancel hwidth']
  have hsplit := replicate_append_dropWhile '0' (digits width n)
  rw [length_digits] at hsplit
  rw [plain, hwide, List.dropWhile_append_of_pos (by simp)]
  generalize (digits width n).dropWhile (· = '0') = rest at hsplit
  cases rest with
  | nil =>
    obtain ⟨width, rfl⟩ := Nat.exists_eq_succ_of_ne_zero hwidth
    rw [List.length_nil, Nat.sub_zero, List.append_nil, List.replicate_succ'] at hsplit
    exact hsplit
  | cons c rest => simpa [Nat.add_comm] using hsplit

end Text.Hex

namespace Image

theorem join_linePieces (w : Word) : String.join (linePieces w) = wordLine w := by
  have hplain := Text.Hex.replicate_append_plain (by decide : 4 ≠ 0) (by decide) w.toNat_lt
  have hzeros (n : Nat) : (String.join (List.replicate n "0")).toList = List.replicate n '0' := by
    rw [String.toList_join, List.flatMap_replicate]
    simp
  apply String.toList_injective
  rw [linePieces, String.join_append, String.toList_append, hzeros, wordLine, Text.Hex.word,
    Text.Hex.padded, String.toList_append, String.toList_ofList, ← hplain]
  simp

theorem flatMap_linePieces (image : Image) :
    (image.savedWords.toList.flatMap linePieces).flatMap Octets.ofString =
      Octets.ofString image.text := by
  simp [text, Octets.ofString_join, List.flatMap_assoc, ← join_linePieces, List.flatMap_map]

end Image

/-- A sink that has room for `limit` octets in all, told by what it holds. Of an offer it takes a
part of its choice, never nothing and never more than there is room for. Once it is full it fails.
Flushing it may fail. -/
structure Sink.Bounded {σ : Type} [Sink σ] (limit : Nat) (Holds : σ → Octets → Prop) : Prop where
  length_le : ∀ {sink held}, Holds sink held → held.length ≤ limit
  takes : ∀ {sink held}, Holds sink held → held.length < limit → ∀ {offer : Octets}, offer ≠ [] →
    ∃ n, 0 < n ∧ n ≤ offer.length ∧ (accept sink offer).1 = .ok n ∧
      Holds (accept sink offer).2 (held ++ offer.take n)
  fails : ∀ {sink held}, Holds sink held → held.length = limit → ∀ {offer : Octets}, offer ≠ [] →
    ∃ cause, (accept sink offer).1 = .error cause ∧ Holds (accept sink offer).2 held
  flush : ∀ {sink held}, Holds sink held → Holds (flush sink).2 held

variable {σ : Type} [Sink σ] {limit : Nat} {Holds : σ → Octets → Prop} {sink : σ} {held : Octets}

/-- What a bounded sink leaves of a text: all of it, or as much as there is room for, with an
error. -/
structure Sink.Leaves (limit : Nat) (Holds : σ → Octets → Prop) (octets : Octets)
    (result : Except String Unit × σ) : Prop where
  holds : Holds result.2 (octets.take limit)
  ok_iff : result.1 = .ok () ↔ octets.length ≤ limit

namespace Sink

omit [Sink σ] in
theorem Leaves.full {cause : String} (h : Holds sink held) (hfull : held.length = limit)
    {offer : Octets} (hoffer : offer ≠ []) :
    Leaves limit Holds (held ++ offer) (.error cause, sink) where
  holds := by
    rw [List.take_append_of_le_length hfull.ge, List.take_of_length_le hfull.le]
    exact h
  ok_iff := by
    have hpos := List.length_pos_iff.mpr hoffer
    rw [List.length_append]
    exact ⟨nofun, fun hle => by omega⟩

theorem writeAll_of_ok {offer : Octets} {n : Nat} (hoffer : offer ≠ []) (hn : 0 < n)
    (h : (accept sink offer).1 = .ok n) :
    writeAll offer sink = writeAll (offer.drop n) (accept sink offer).2 := by
  obtain ⟨b, bs, rfl⟩ := List.exists_cons_of_ne_nil hoffer
  obtain ⟨n, rfl⟩ := Nat.exists_eq_succ_of_ne_zero hn.ne'
  rcases haccept : accept sink (b :: bs) with ⟨answer, sink'⟩
  obtain rfl : answer = .ok (n + 1) := by rw [← h, haccept]
  rw [writeAll, haccept]
  rfl

theorem writeAll_of_error {offer : Octets} {cause : String} (hoffer : offer ≠ [])
    (h : (accept sink offer).1 = .error cause) :
    writeAll offer sink = (.error cause, (accept sink offer).2) := by
  obtain ⟨b, bs, rfl⟩ := List.exists_cons_of_ne_nil hoffer
  rcases haccept : accept sink (b :: bs) with ⟨answer, sink'⟩
  obtain rfl : answer = .error cause := by rw [← h, haccept]
  rw [writeAll, haccept]

namespace Bounded

theorem leaves_writeAll (h : Sink.Bounded limit Holds) (hheld : Holds sink held)
    (offer : Octets) : Leaves limit Holds (held ++ offer) (writeAll offer sink) := by
  induction hlength : offer.length using Nat.strong_induction_on generalizing offer sink held with
  | h length ih =>
    have hle := h.length_le hheld
    by_cases hoffer : offer = []
    · subst hoffer
      rw [List.append_nil, writeAll]
      exact ⟨by rwa [List.take_of_length_le hle], by simpa using hle⟩
    · rcases hle.lt_or_eq with hroom | hfull
      · obtain ⟨n, hpos, hle, haccept, hheld'⟩ := h.takes hheld hroom hoffer
        have hshorter : (offer.drop n).length < length := by
          rw [List.length_drop]
          omega
        have hrest := ih _ hshorter hheld' (offer.drop n) rfl
        rw [writeAll_of_ok hoffer hpos haccept]
        rwa [List.append_assoc, List.take_append_drop] at hrest
      · obtain ⟨cause, haccept, hheld'⟩ := h.fails hheld hfull hoffer
        rw [writeAll_of_error hoffer haccept]
        exact .full hheld' hfull hoffer

theorem leaves_writePieces (h : Sink.Bounded limit Holds) (hheld : Holds sink held)
    (pieces : List String) :
    Leaves limit Holds (held ++ pieces.flatMap Octets.ofString)
      (Image.writePieces pieces sink) := by
  induction pieces generalizing sink held with
  | nil =>
    have hle := h.length_le hheld
    rw [List.flatMap_nil, List.append_nil]
    exact ⟨by rwa [List.take_of_length_le hle], by simpa [Image.writePieces] using hle⟩
  | cons piece pieces ih =>
    have hpiece := h.leaves_writeAll hheld (Octets.ofString piece)
    rw [Image.writePieces, List.flatMap_cons, ← List.append_assoc]
    generalize writeAll (Octets.ofString piece) sink = result at hpiece
    obtain ⟨answer, sink'⟩ := result
    obtain ⟨hholds, hok⟩ := hpiece
    cases answer with
    | error cause =>
      -- what the piece did not find room for, nothing after it does
      have hlong : limit < (held ++ Octets.ofString piece).length := by simpa using hok
      constructor
      · rw [List.take_append_of_le_length hlong.le]
        exact hholds
      · rw [List.length_append]
        exact ⟨nofun, fun hle => by omega⟩
    | ok =>
      have hle : (held ++ Octets.ofString piece).length ≤ limit := hok.mp rfl
      rw [List.take_of_length_le hle] at hholds
      exact ih hholds

end Bounded

end Sink

namespace Image

theorem write_of_error {cause : String} {image : Image}
    (h : (image.writeLines sink).1 = .error cause) :
    image.write sink = (.error (.writeFailed cause), (image.writeLines sink).2) := by
  rw [write]
  split
  · next hlines =>
    rw [hlines] at h ⊢
    rw [Except.error.inj h]
  · next hlines =>
    rw [hlines] at h
    contradiction

theorem write_of_ok {image : Image} (h : (image.writeLines sink).1 = .ok ()) :
    image.write sink = ((Sink.flush (image.writeLines sink).2).1.mapError .writeFailed,
      (Sink.flush (image.writeLines sink).2).2) := by
  rw [write]
  split
  · next hlines =>
    rw [hlines] at h
    contradiction
  · next hlines => rw [hlines]

/-- Of the text of an image, a sink with room for so many octets receives the first of them, and all
if they fit. Writing succeeds just if they fit and the sink can be flushed after them. -/
theorem write_received (h : Sink.Bounded limit Holds) (image : Image) (hempty : Holds sink []) :
    let octets := Octets.ofString image.text
    let answer := (image.write sink).1
    Holds (image.write sink).2 (octets.take (min limit octets.length)) ∧
      (answer = .ok () ↔
        octets.length ≤ limit ∧ (Sink.flush (image.writeLines sink).2).1 = .ok ()) ∧
      (answer ≠ .ok () → ∃ cause, answer = .error (.writeFailed cause)) := by
  intro octets answer
  have hlines : Sink.Leaves limit Holds octets (image.writeLines sink) := by
    have hpieces := h.leaves_writePieces hempty (image.savedWords.toList.flatMap linePieces)
    rwa [List.nil_append, flatMap_linePieces] at hpieces
  obtain ⟨hholds, hok⟩ := hlines
  have hmin : octets.take (min limit octets.length) = octets.take limit := by
    rw [List.take_eq_take_iff]
    omega
  rw [hmin]
  simp only [answer]
  cases hwritten : (image.writeLines sink).1 with
  | error cause =>
    rw [hwritten] at hok
    rw [write_of_error hwritten]
    have hlong : ¬octets.length ≤ limit := by simpa using hok
    exact ⟨hholds, ⟨nofun, fun hfits => absurd hfits.1 hlong⟩, fun _ => ⟨cause, rfl⟩⟩
  | ok =>
    rw [write_of_ok hwritten]
    have hfits : octets.length ≤ limit := hok.mp hwritten
    refine ⟨h.flush hholds, ?_⟩
    cases (Sink.flush (image.writeLines sink).2).1 with
    | error cause => exact ⟨⟨nofun, fun hflushed => nomatch hflushed.2⟩, fun _ => ⟨cause, rfl⟩⟩
    | ok => exact ⟨⟨fun _ => ⟨hfits, rfl⟩, fun _ => rfl⟩, fun hfailed => absurd rfl hfailed⟩

end Image

def BoundedDevice.Took (limit : Nat) (d : BoundedDevice) (held : Octets) : Prop :=
  d.limit = limit ∧ d.held.toList = held ∧ held.length ≤ limit

theorem BoundedDevice.bounded (limit : Nat) : Sink.Bounded limit (BoundedDevice.Took limit) := by
  constructor
  case length_le => exact fun h => h.2.2
  case flush => exact fun h => h
  case takes =>
    rintro d held ⟨rfl, rfl, -⟩ hroom offer hoffer
    have hpos := List.length_pos_iff.mpr hoffer
    obtain ⟨room, hroom'⟩ : ∃ room, d.limit - d.held.size = room + 1 :=
      Nat.exists_eq_succ_of_ne_zero (Nat.sub_ne_zero_of_lt (by simpa using hroom))
    let taken := offer.take (min (room + 1) (d.portion offer + 1))
    have haccept : Sink.accept d offer =
        (.ok taken.length, { d with held := d.held.appendList taken }) := by
      simp [Sink.accept, accept, hoffer, hroom', taken]
    have hlength : taken.length = min (min (room + 1) (d.portion offer + 1)) offer.length :=
      List.length_take
    have htaken : offer.take taken.length = taken := by
      rw [hlength, ← List.take_take, List.take_length]
    have hbound : (d.held.toList ++ taken).length ≤ d.limit := by
      rw [List.length_append, Array.length_toList]
      omega
    rw [haccept]
    refine ⟨taken.length, by omega, by omega, rfl, rfl, ?_⟩
    rw [htaken]
    exact ⟨by simp, hbound⟩
  case fails =>
    rintro d held ⟨rfl, rfl, hle⟩ hfull offer hoffer
    have hroom : d.limit - d.held.size = 0 := by simp [← hfull]
    have haccept : Sink.accept d offer = (.error "device full", d) := by
      simp [Sink.accept, accept, hoffer, hroom]
    rw [haccept]
    exact ⟨_, rfl, rfl, rfl, hle⟩

theorem Image.write_received_partway :
    let device : BoundedDevice := { limit := 7, portion := fun _ => 0, failFlush := false }
    let image := Image.ofWords #[0x0007, 0xABCD]
    (image.write device).2.held.toList = Octets.ofString "0007\nab" ∧
      ∃ cause, (image.write device).1 = .error (.writeFailed cause) := by
  intro device image
  have htext : image.text = "0007\nabcd\n" := by decide
  have hempty : BoundedDevice.Took 7 device [] := ⟨rfl, rfl, by decide⟩
  obtain ⟨⟨-, hheld, -⟩, hok, herror⟩ := write_received (BoundedDevice.bounded 7) image hempty
  rw [htext] at hheld hok
  refine ⟨hheld.trans (by decide +kernel), herror fun hanswer => ?_⟩
  have hlength : (Octets.ofString "0007\nabcd\n").length = 10 := by decide +kernel
  have hfits := (hok.mp hanswer).1
  omega

end WordMachine
