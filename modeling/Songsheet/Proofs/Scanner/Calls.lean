import Songsheet.Proofs.Scanner.Agreement

/-!
# Calls on one scanner

A scanner is called again and again, and a call that fails leaves it where the failure was found:
behind a comment that is never closed, or in the middle of a note. The next call goes on from there.
Whatever is called, in whatever order, the scanner keeps to its text.

* `Call` — what may be called from outside: tokens, gaps, raw texts and notes.
* `Scanner.Sound` — the index is inside the text, and line and column are those of the index.
* `scannerBehind_eq` — after any calls, the scanner stands where the readings of the same calls have
  led.
* `Scanner.Sound.advance` — each character that is taken keeps the scanner sound.
* `scanner_of_calls` — no call takes a character behind the end, none goes on for ever, none moves
  back, and the scanner stays sound.
-/

namespace Songsheet

/-! ## Calls -/

/-- What may be called on a scanner. -/
inductive Call where
  | nextToken
  | tokens
  | skipGap
  | digits
  | word
  | through (close : Char)
  | quotedText
  | note (previous : Note)
  deriving DecidableEq, Repr

namespace Call

/-- What a call answers with. -/
def Answer : Call → Type
  | nextToken => Token
  | tokens => List Token
  | skipGap => Unit
  | digits => String
  | word => String
  | through _ => Option String
  | quotedText => String
  | note _ => Note

/-- A call, one character at a time. -/
def scan : (call : Call) → Scan call.Answer
  | nextToken => Scan.nextToken
  | tokens => Scan.tokens
  | skipGap => Scan.skipGap
  | digits => Scan.digits
  | word => Scan.word
  | through close => Scan.through close
  | quotedText => Scan.quotedText
  | note previous => Scan.note previous

/-- A call, as it is read. -/
def reading : (call : Call) → Reading call.Answer
  | nextToken => Reading.nextToken
  | tokens => Reading.tokens
  | skipGap => Reading.skipGap
  | digits => Reading.digits
  | word => Reading.word
  | through close => Reading.through close
  | quotedText => Reading.quotedText
  | note previous => Reading.note previous

theorem follows (call : Call) : Scan.Follows call.scan call.reading := by
  cases call with
  | nextToken => exact Scan.follows_nextToken
  | tokens => exact Scan.follows_tokens
  | skipGap => exact Scan.follows_skipGap
  | digits => exact Scan.follows_run _
  | word => exact Scan.follows_run _
  | through close => exact Scan.follows_through close
  | quotedText => exact Scan.follows_quotedText
  | note previous => exact Scan.follows_note previous

theorem forward (call : Call) : call.reading.Forward := by
  cases call with
  | nextToken => exact Reading.forward_nextToken
  | tokens => exact Reading.forward_tokens
  | skipGap => exact Reading.forward_skipGap
  | digits => exact Reading.forward_digits
  | word => exact Reading.forward_word
  | through close => exact Reading.forward_through close
  | quotedText => exact Reading.forward_quotedText
  | note previous => exact Reading.forward_note previous

end Call

/-! ## Behind calls -/

/-- The scanner that a finished scan leaves behind. -/
def Scan.scannerLeft {α : Type} : EStateM.Result Halt Scanner α → Scanner
  | .ok _ s => s
  | .error _ s => s

/-- The scanner behind calls on a text, those that fail among them. -/
def scannerBehind (text : String) (calls : List Call) : Scanner :=
  calls.foldl (fun s call => Scan.scannerLeft (call.scan s)) (.ofText text)

/-- The cursor to which the readings of calls lead. -/
def cursorBehind (text : String) (calls : List Call) : Cursor :=
  calls.foldl (fun c call => Reading.cursorLeft (call.reading c)) (.ofText text)

variable {text : String} {c : Cursor}

theorem scannerBehind_concat (text : String) (calls : List Call) (call : Call) :
    scannerBehind text (calls ++ [call]) =
      Scan.scannerLeft (call.scan (scannerBehind text calls)) := by
  simp [scannerBehind]

theorem cursorBehind_concat (text : String) (calls : List Call) (call : Call) :
    cursorBehind text (calls ++ [call]) =
      Reading.cursorLeft (call.reading (cursorBehind text calls)) := by
  simp [cursorBehind]

theorem reaches_cursorBehind (text : String) (calls : List Call) :
    (Cursor.ofText text).Reaches (cursorBehind text calls) := by
  induction calls using List.reverseRecOn with
  | nil => exact .refl _
  | append_singleton calls call ih =>
    rw [cursorBehind_concat]
    exact ih.trans (call.forward _)

theorem scannerLeft_told {α : Type} (text : List Char)
    (outcome : EStateM.Result Diagnostic Cursor α) :
    Scan.scannerLeft (Scan.told text outcome) = (Reading.cursorLeft outcome).scanner text := by
  cases outcome <;> rfl

/-- One call: it comes to what its reading comes to, where the calls before have led. -/
theorem scan_of_scanner (call : Call) (h : (Cursor.ofText text).Reaches c) :
    call.scan (c.scanner text.toList) = Scan.told text.toList (call.reading c) :=
  call.follows text.toList c h.suffix

/-- All calls lead the scanner to where their readings lead. -/
theorem scannerBehind_eq (text : String) (calls : List Call) :
    scannerBehind text calls = (cursorBehind text calls).scanner text.toList := by
  induction calls using List.reverseRecOn with
  | nil =>
    simp [scannerBehind, cursorBehind, Scanner.ofText, Cursor.ofText, Cursor.scanner,
      Position.start]
  | append_singleton calls call ih =>
    rw [scannerBehind_concat, cursorBehind_concat, ih,
      scan_of_scanner call (reaches_cursorBehind text calls), scannerLeft_told]

/-! ## Sound scanners -/

/-- A scanner that keeps to a text: its index is inside the text, its line counts the line breaks in
front of the index, and its column the characters since the last one of them. -/
structure Scanner.Sound (text : String) (s : Scanner) : Prop where
  text_eq : s.text = text.toList
  index_le : s.index ≤ text.toList.length
  line_eq : s.line = 1 + (text.toList.take s.index).count '\n'
  column_eq : s.column =
    1 + ((text.toList.take s.index).reverse.takeWhile (· != '\n')).length

namespace Scanner.Sound

variable {s t : Scanner} {x : Char}

theorem position_eq (h : s.Sound text) :
    (⟨s.line, s.column⟩ : Position) = .counted (text.toList.take s.index) := by
  rw [h.line_eq, h.column_eq, Position.counted]

theorem of_position (htext : s.text = text.toList) (hindex : s.index ≤ text.toList.length)
    (h : (⟨s.line, s.column⟩ : Position) = .counted (text.toList.take s.index)) : s.Sound text := by
  obtain ⟨hline, hcolumn⟩ := Position.mk.inj h
  exact ⟨htext, hindex, hline, hcolumn⟩

/-- Also in the middle of a call: a character that is taken keeps the scanner sound. -/
theorem advance (h : s.Sound text) (htaken : Scan.advance s = .ok x t) :
    t.Sound text ∧ t.index = s.index + 1 := by
  unfold Scan.advance at htaken
  cases hnext : s.text[s.index]? with
  | none => simp [hnext] at htaken
  | some y =>
    simp only [hnext, EStateM.Result.ok.injEq] at htaken
    obtain ⟨rfl, rfl⟩ := htaken
    rw [h.text_eq] at hnext
    obtain ⟨hlt, -⟩ := List.getElem?_eq_some_iff.1 hnext
    have hpast : (⟨(s.past y).line, (s.past y).column⟩ : Position) =
        (⟨s.line, s.column⟩ : Position).next y := by
      unfold Scanner.past Position.next
      split <;> rfl
    have hindex : (s.past y).index = s.index + 1 := by
      unfold Scanner.past
      split <;> rfl
    have htext : (s.past y).text = s.text := by
      unfold Scanner.past
      split <;> rfl
    refine ⟨.of_position (htext.trans h.text_eq) (hindex ▸ hlt) ?_, hindex⟩
    rw [hpast, h.position_eq, hindex, List.take_add_one, hnext, Option.toList_some,
      Position.counted_concat]

end Scanner.Sound

/-- A cursor that is reached in a text gives a sound scanner. -/
theorem Cursor.Reaches.sound_scanner (h : (ofText text).Reaches c) :
    (c.scanner text.toList).Sound text := by
  obtain ⟨front, htext, hposition⟩ := h
  have hwhole : text.toList = front ++ c.rest := htext
  have hindex : (c.scanner text.toList).index = front.length := by
    rw [Cursor.scanner, hwhole, List.length_append, Nat.add_sub_cancel_right]
  refine .of_position rfl (Nat.sub_le _ _) ?_
  rw [hindex, hwhole, List.take_left, ← Position.after_start]
  exact hposition

theorem Cursor.Reaches.index_le {d : Cursor} (text : List Char) (h : c.Reaches d) :
    (c.scanner text).index ≤ (d.scanner text).index :=
  Nat.sub_le_sub_left h.length_le _

/-- **A scanner keeps to its text.** Behind any calls, those that failed among them, the scanner is
sound, and inside a call it stays so with every character that is taken. A further call answers or
reports what is wrong with the text: it never takes a character behind the end and never goes on for
ever. It comes to what its reading comes to, and it does not move the scanner back. -/
theorem scanner_of_calls (text : String) (calls : List Call) :
    (scannerBehind text calls).Sound text ∧
    (∀ s x t, s.Sound text → Scan.advance s = .ok x t → t.Sound text ∧ t.index = s.index + 1) ∧
    ∀ call : Call,
      ((∃ answer t, call.scan (scannerBehind text calls) = .ok answer t) ∨
        ∃ x t, call.scan (scannerBehind text calls) = .error (.reported x) t) ∧
      call.scan (scannerBehind text calls) =
        Scan.told text.toList (call.reading (cursorBehind text calls)) ∧
      (scannerBehind text calls).index ≤ (scannerBehind text (calls ++ [call])).index := by
  have hreached := reaches_cursorBehind text calls
  refine ⟨scannerBehind_eq text calls ▸ hreached.sound_scanner, fun s x t hs => hs.advance,
    fun call => ?_⟩
  have hscan : call.scan (scannerBehind text calls) =
      Scan.told text.toList (call.reading (cursorBehind text calls)) := by
    rw [scannerBehind_eq]
    exact scan_of_scanner call hreached
  refine ⟨?_, hscan, ?_⟩
  · rw [hscan]
    cases call.reading (cursorBehind text calls) with
    | ok answer d => exact .inl ⟨answer, _, rfl⟩
    | error x d => exact .inr ⟨x, _, rfl⟩
  · rw [scannerBehind_eq, scannerBehind_eq, cursorBehind_concat]
    exact (call.forward _).index_le _

/-- A note with a comment behind it that is never closed: the scanner is sound behind the key, and
where the failed call has left it, at the end of the text. -/
theorem scanner_of_calls_unclosed :
    (⟨"C /*\n".toList, 1, 1, 2⟩ : Scanner).Sound "C /*\n" ∧
    scannerBehind "C /*\n" [.note .middleC] = ⟨"C /*\n".toList, 5, 2, 1⟩ ∧
    (⟨"C /*\n".toList, 5, 2, 1⟩ : Scanner).Sound "C /*\n" := by
  obtain ⟨hstart, hadvance, -⟩ := scanner_of_calls "C /*\n" []
  have hkey : Scan.advance (scannerBehind "C /*\n" []) = .ok 'C' ⟨"C /*\n".toList, 1, 1, 2⟩ := by
    decide +kernel
  have hbehind : scannerBehind "C /*\n" [.note .middleC] = ⟨"C /*\n".toList, 5, 2, 1⟩ := by
    decide +kernel
  exact ⟨(hadvance _ _ _ hstart hkey).1, hbehind,
    hbehind ▸ (scanner_of_calls "C /*\n" [.note .middleC]).1⟩

end Songsheet
