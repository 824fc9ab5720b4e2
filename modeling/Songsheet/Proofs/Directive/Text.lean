import Songsheet.Proofs.Directive.References
import Songsheet.Proofs.Note.Text

/-!
# The text of directives

How the directives of a document are spelled: a mark, and behind it a label with its colon, the
notes of a sequence, or the name of an attribute with its value. The readers accept exactly such
texts.

* `Item` — a directive as it is spelled; `Item.directive` is what it says, up to sites.
* `LabelText`, `AttributeText`, `ItemText` — the texts of labels that are defined, of the names of
  attributes, and of items.
* `Item.Stops` — what does not go on with an item.
* `itemText_of_directive`, `directive_of_itemText` — what is read behind a mark is the text of an
  item, and the text of an item is read where nothing goes on with it.
-/

namespace Songsheet

variable {text rest after : List Char}

/-! ## Items -/

/-- A directive as it is spelled. -/
inductive Item where
  | track (label : String)
  | sequence (label : String) (notes : List NoteForm)
  | name (text : String)
  | tempo (beatsPerMinute : UInt32)
  | channel (labels : List String)
  deriving DecidableEq, Repr

/-- What an item says; it stands at no site in particular. -/
def Item.directive : Item → Directive
  | .track label => .track label .nowhere
  | .sequence label notes => .sequence label .nowhere (notes.map NoteForm.written)
  | .name text => .describe (.name text)
  | .tempo beats => .describe (.tempo beats)
  | .channel labels => .describe (.channel (labels.map fun label => ⟨label, .nowhere⟩))

theorem Item.directive_eraseSites (it : Item) : it.directive.eraseSites = it.directive := by
  cases it <;>
    simp [Item.directive, Directive.eraseSites, Attribute.eraseSites, Reference.eraseSite]

/-- The word for an attribute in lower case. -/
def AttributeName.word : AttributeName → String
  | .name => "name"
  | .tempo => "bpm"
  | .channel => "channel"

/-- A label with its colon, and the end of the word. -/
def LabelText (label : String) (text rest : List Char) : Prop :=
  IsIdentifier label ∧ text = label.toList ++ ':' :: rest ∧ WordEnd rest

/-- The name of an attribute, in any case of its letters, and a gap that begins with a blank. -/
def AttributeText (kind : AttributeName) (text rest : List Char) : Prop :=
  ∃ word gap, text = word ++ gap ∧ word.map Char.toLower = kind.word.toList ∧ BeginsBlank gap ∧
    GapText Text.isBlank gap rest

/-- An item with its mark. -/
inductive ItemText : Item → List Char → List Char → Prop
  | track {label : String} {text rest : List Char} (spelled : LabelText label text rest) :
      ItemText (.track label) ('@' :: text) rest
  | sequence {label : String} {forms : List NoteForm} {text behind rest : List Char}
      (spelled : LabelText label text behind) (notes : NotesText forms behind rest) :
      ItemText (.sequence label forms) ('$' :: text) rest
  | name {value : String} {text rest : List Char}
      (spelled : AttributeText .name text ('"' :: (quoted value.toList ++ rest)))
      (ends : rest.head? ≠ some '"') : ItemText (.name value) ('%' :: text) rest
  | tempo {numeral : String} {n : Nat} {text rest : List Char}
      (spelled : AttributeText .tempo text (numeral.toList ++ rest))
      (value : Text.decimalBelow? UInt32.size numeral = some n)
      (ends : ∀ c, rest.head? = some c → c.isDigit = false) :
      ItemText (.tempo (UInt32.ofNat n)) ('%' :: text) rest
  | channel {labels : List String} {text behind rest : List Char}
      (spelled : AttributeText .channel text behind)
      (references : ReferencesText labels behind rest) :
      ItemText (.channel labels) ('%' :: text) rest

/-- What does not go on with an item: behind a sequence no note may follow, behind a channel no
reference, and the gap behind them is taken. -/
def Item.Stops : Item → List Char → Prop
  | .sequence _ _, after =>
    gapAt Text.isBlank after = .upTo [] after ∧ ∀ c, after.head? = some c → isKeyChar c = false
  | .channel _, after =>
    gapAt Text.isBlank after = .upTo [] after ∧
      ∀ c, after.head? = some c → (c.isAlpha || c == '_') = false
  | _, _ => True

/-! ## Words -/

theorem labelDefinedBy?_eq_some {word label : String} :
    labelDefinedBy? word = some label ↔ IsIdentifier label ∧ word.toList = label.toList ++ [':'] := by
  simp only [labelDefinedBy?, Option.ite_none_right_eq_some, Option.some.injEq]
  constructor
  · rintro ⟨⟨hlast, hlabel⟩, rfl⟩
    obtain ⟨front, hfront⟩ := List.getLast?_eq_some_iff.1 hlast
    refine ⟨(isLabel_iff _).1 hlabel, ?_⟩
    rw [hfront, List.dropLast_concat, String.toList_ofList]
  · rintro ⟨hlabel, hword⟩
    have hdrop : String.ofList word.toList.dropLast = label := by
      rw [hword, List.dropLast_concat, String.ofList_toList]
    exact ⟨⟨by rw [hword]; simp, by rw [hdrop]; exact (isLabel_iff _).2 hlabel⟩, hdrop⟩

theorem ofWord?_eq_some {word : String} {kind : AttributeName} :
    AttributeName.ofWord? word = some kind ↔
      word.toList.map Char.toLower = kind.word.toList := by
  unfold AttributeName.ofWord?
  dsimp only
  constructor
  · intro h
    split at h
    · obtain rfl := Option.some.inj h
      assumption
    split at h
    · obtain rfl := Option.some.inj h
      assumption
    split at h
    · obtain rfl := Option.some.inj h
      assumption
    · simp at h
  · intro h
    rw [h]
    cases kind <;> decide

/-- No blank belongs to the name of an attribute. -/
theorem isBlank_of_mem_attribute {word : List Char} {kind : AttributeName}
    (h : word.map Char.toLower = kind.word.toList) : ∀ c ∈ word, (!Text.isBlank c) = true := by
  intro c hc
  have hmem : c.toLower ∈ kind.word.toList := h ▸ List.mem_map_of_mem hc
  have hall : (kind.word.toList.all fun x => !Text.isBlank x) = true := by cases kind <;> decide
  have hvisible : (!Text.isBlank c.toLower) = true := List.all_eq_true.1 hall _ hmem
  by_cases hupper : c.isUpper
  · have halpha : c.isAlpha := Bool.or_eq_true_iff.2 (.inl hupper)
    simp [isBlank_of_isAlpha halpha]
  · have hsame : c.toLower = c := dif_neg fun hrange => hupper (decide_eq_true hrange)
    rw [← hsame]
    exact hvisible

theorem AttributeText.suffix {kind : AttributeName} (h : AttributeText kind text rest) :
    rest <:+ text := by
  obtain ⟨word, gap, rfl, -, -, hgap⟩ := h
  exact hgap.suffix.trans (List.suffix_append word gap)

namespace Reading

variable {c d : Cursor}

/-! ## Labels -/

theorem labelText_of_definedLabel {label : String} (h : definedLabel c = .ok label d) :
    LabelText label c.rest d.rest := by
  obtain ⟨word, hword, hlabel⟩ := definedLabel_eq_ok.1 h
  obtain ⟨hvalid, hcolon⟩ := labelDefinedBy?_eq_some.1 hlabel
  obtain ⟨hrest, hend⟩ := text_of_word hword
  refine ⟨hvalid, ?_, hend⟩
  rw [hrest, hcolon, List.append_assoc]
  rfl

theorem definedLabel_of_labelText {label : String} (h : LabelText label c.rest rest) :
    ∃ d, definedLabel c = .ok label d ∧ d.rest = rest := by
  obtain ⟨hvalid, hrest, hend⟩ := h
  have hword : ∀ x ∈ (label ++ ":").toList, (!Text.isBlank x) = true := by
    intro x hx
    rw [String.toList_append, List.mem_append] at hx
    rcases hx with hx | hx
    · exact isBlank_of_mem_label hvalid x hx
    · obtain rfl : x = ':' := by simpa using hx
      decide
  have hc : c.rest = (label ++ ":").toList ++ rest := by
    rw [hrest, String.toList_append, List.append_assoc]
    rfl
  refine ⟨_, definedLabel_eq_ok.2 ⟨_, word_of_text hword hend hc, ?_⟩, rfl⟩
  exact labelDefinedBy?_eq_some.2 ⟨hvalid, String.toList_append⟩

/-! ## Attributes -/

theorem text_of_quotedText {value : String} (h : quotedText c = .ok value d) :
    c.rest = '"' :: (quoted value.toList ++ d.rest) ∧ d.rest.head? ≠ some '"' := by
  refine ⟨?_, quotedText_stops h⟩
  rw [quotedText] at h
  split at h
  · rename_i form hform
    split at h
    · rename_i inside rest hu
      obtain ⟨rfl, rfl⟩ := EStateM.Result.ok.inj h
      rw [hform, (quoted_of_unquoted? hu).1, String.toList_ofList]
      rfl
    · simp at h
  · simp at h

theorem quotedText_of_text {value : String} (hend : rest.head? ≠ some '"')
    (hc : c.rest = '"' :: (quoted value.toList ++ rest)) :
    ∃ d, quotedText c = .ok value d ∧ d.rest = rest := by
  rw [quotedText, hc]
  simp only [unquoted?_quoted value.toList rest hend, String.ofList_toList]
  exact ⟨_, rfl, rfl⟩

/-- The name of an attribute in front of a value that begins with no gap. -/
theorem attributeText_of_word {word : String} {kind : AttributeName} {e : Cursor} {x : Char}
    (hword : Reading.word c = .ok word e) (hskip : skipGap e = .ok () d)
    (hkind : AttributeName.ofWord? word = some kind) (hx : d.rest.head? = some x) :
    AttributeText kind c.rest d.rest := by
  obtain ⟨hrest, hend⟩ := text_of_word hword
  have hgap := skipGap_eq_ok hskip
  exact ⟨word.toList, e.rest, hrest, ofWord?_eq_some.1 hkind, hend.beginsBlank hgap hx,
    hgap.gapText⟩

/-- The name of an attribute is read as a word, and the gap behind it is left. -/
theorem word_of_attributeText {kind : AttributeName} (h : AttributeText kind c.rest text) :
    ∃ word d, Reading.word c = .ok word d ∧ AttributeName.ofWord? word = some kind ∧
      GapText Text.isBlank d.rest text := by
  obtain ⟨word, gap, hrest, hlower, hspace, hgap⟩ := h
  rw [← String.toList_ofList (l := word)] at hrest hlower
  have hword := word_of_text (isBlank_of_mem_attribute hlower) (.of_beginsBlank hspace) hrest
  exact ⟨_, _, hword, ofWord?_eq_some.2 hlower, hgap⟩

theorem trackAttribute_of_attributeText {kind : AttributeName} {said : Attribute}
    {source : SourcePath} {x : Char} (h : AttributeText kind c.rest text)
    (hx : text.head? = some x) (hhead : Text.isBlank x = false ∧ x ≠ '/')
    (hvalue : ∀ e : Cursor, e.rest = text → ∃ value d, attributeValue source kind e = .ok value d ∧
      value.eraseSites = said ∧ d.rest = rest) :
    ∃ value d, trackAttribute source c = .ok value d ∧ value.eraseSites = said ∧ d.rest = rest := by
  obtain ⟨word, b, hword, hkind, hgap⟩ := word_of_attributeText h
  have hself : BehindGap text text := behindGap_of_head?_eq hx hhead
  obtain ⟨e, he, herest⟩ := skipGap_of_behindGap (hgap.behindGap (fun _ h => h) hself)
  obtain ⟨value, d, hd, hsaid, hdrest⟩ := hvalue e herest
  exact ⟨value, d, trackAttribute_eq_ok.2 ⟨word, b, e, kind, hword, he, hkind, hd⟩, hsaid, hdrest⟩

/-! ## Items -/

/-- What is read as an attribute is the text of an item and the gap behind it. -/
theorem itemText_of_trackAttribute {source : SourcePath} {value : Attribute}
    (h : trackAttribute source c = .ok value d) :
    ∃ it rest, (Directive.describe value).eraseSites = it.directive ∧
      ItemText it ('%' :: c.rest) rest ∧ GapText Text.isBlank rest d.rest ∧ it.Stops d.rest := by
  obtain ⟨word, e₁, e₂, kind, hword, hskip, hkind, hvalue⟩ := trackAttribute_eq_ok.1 h
  cases kind with
  | name =>
    obtain ⟨text, e, htext, hpure⟩ := bind_eq_ok.1 hvalue
    obtain ⟨rfl, rfl⟩ := pure_eq_ok.1 hpure
    obtain ⟨hrest, hend⟩ := text_of_quotedText htext
    have hspelled := attributeText_of_word hword hskip hkind (x := '"') (by rw [hrest]; rfl)
    rw [hrest] at hspelled
    exact ⟨.name text, e.rest, rfl, .name hspelled hend, .nothing, trivial⟩
  | tempo =>
    obtain ⟨beats, e, hbeats, hpure⟩ := bind_eq_ok.1 hvalue
    obtain ⟨rfl, rfl⟩ := pure_eq_ok.1 hpure
    obtain ⟨first, hfirst, hdigit⟩ := exists_digit_of_tempo hbeats
    obtain ⟨numeral, n, hdigits, hn, rfl⟩ := tempo_eq_ok.1 hbeats
    have hspelled := attributeText_of_word hword hskip hkind hfirst
    rw [(rest_of_run hdigits).1] at hspelled
    exact ⟨.tempo (UInt32.ofNat n), e.rest, rfl, .tempo hspelled hn (run_stops hdigits), .nothing,
      trivial⟩
  | channel =>
    obtain ⟨found, e, hfound, hpure⟩ := bind_eq_ok.1 hvalue
    obtain ⟨rfl, rfl⟩ := pure_eq_ok.1 hpure
    obtain ⟨first, hfirst, hletter⟩ := exists_letter_of_references hfound
    obtain ⟨⟨rest, htext, hgap⟩, hstop⟩ := referencesText_of_references hfound
    have hspelled := attributeText_of_word hword hskip hkind hfirst
    refine ⟨.channel (found.map (·.label)), rest, ?_, .channel hspelled htext, hgap.gapText,
      hgap.gapAt_rest, hstop⟩
    simp [Directive.eraseSites, Attribute.eraseSites, Item.directive, Reference.eraseSite]

/-- The channel of a text is read with the references that stand there, each at its site. -/
theorem directive_of_channel {source : SourcePath} {x : Directive} {found : List Reference}
    {b e : Cursor} (h : directive source .attributeMark c = .ok x d)
    (hspelled : AttributeText .channel c.rest b.rest) (hb : c.Reaches b)
    (hfound : ReferencesAt source found b e) (hgap : GapText Text.isBlank e.rest d.rest) :
    x = .describe (.channel found) := by
  obtain ⟨_, _, hstart, h⟩ := bind_eq_ok.1 h
  obtain ⟨-, rfl⟩ := position_eq_ok.1 hstart
  obtain ⟨value, _, hvalue, hpure⟩ := bind_eq_ok.1 h
  obtain ⟨rfl, rfl⟩ := pure_eq_ok.1 hpure
  obtain ⟨word, e₁, e₂, kind, hword, hskip, hkind, hvalue⟩ := trackAttribute_eq_ok.1 hvalue
  obtain ⟨word', e₁', hword', hkind', hbetween⟩ := word_of_attributeText hspelled
  obtain ⟨rfl, rfl⟩ := EStateM.Result.ok.inj (hword.symm.trans hword')
  obtain rfl := Option.some.inj (hkind.symm.trans hkind')
  -- the gap behind the word ends where the references begin
  obtain ⟨first, hfirst, hletter⟩ := head?_of_referencesText hfound.referencesText
  have hself : BehindGap b.rest b.rest :=
    behindGap_of_head?_eq hfirst (inner_reference.head (by simp [hletter]))
  have hsame : b.rest = e₂.rest :=
    BehindGap.unique (hbetween.behindGap (fun _ h => h) hself) (skipGap_eq_ok hskip)
  have hreaches : c.Reaches e₂ := (forward_word.ok hword).trans (forward_skipGap.ok hskip)
  obtain rfl := hb.eq_of_rest hreaches hsame
  obtain ⟨read, d', hread, hpure⟩ := bind_eq_ok.1 hvalue
  obtain ⟨rfl, rfl⟩ := pure_eq_ok.1 hpure
  obtain ⟨⟨e', -, hbehind⟩, hstop⟩ := references_eq_ok_iff.1 ⟨d', hread, rfl⟩
  have hend : BehindGap e.rest d'.rest :=
    hgap.behindGap (fun _ h => h) ⟨[], hbehind.gapAt_rest⟩
  obtain ⟨_, hother, -⟩ := references_eq_ok_iff.2 ⟨⟨e, hfound, hend⟩, hstop⟩
  obtain ⟨rfl, -⟩ := EStateM.Result.ok.inj (hread.symm.trans hother)
  rfl

/-- What is read behind a mark is the text of an item and a gap, and nothing follows that would go
on with the item. -/
theorem itemText_of_directive {m : Char} {mark : TokenKind} {source : SourcePath} {x : Directive}
    (hm : TokenKind.ofMark? m = some mark) (h : directive source mark c = .ok x d) :
    ∃ it rest, x.eraseSites = it.directive ∧ ItemText it (m :: c.rest) rest ∧
      GapText Text.isBlank rest d.rest ∧ it.Stops d.rest := by
  obtain ⟨start, _, hstart, h⟩ := bind_eq_ok.1 h
  obtain ⟨rfl, rfl⟩ := position_eq_ok.1 hstart
  split at h
  · obtain rfl := ofMark?_injective (x := m) (y := '@') hm rfl
    obtain ⟨label, e, hlabel, hpure⟩ := bind_eq_ok.1 h
    obtain ⟨rfl, rfl⟩ := pure_eq_ok.1 hpure
    exact ⟨.track label, e.rest, rfl, .track (labelText_of_definedLabel hlabel), .nothing, trivial⟩
  · obtain rfl := ofMark?_injective (x := m) (y := '$') hm rfl
    obtain ⟨label, e, hlabel, h⟩ := bind_eq_ok.1 h
    obtain ⟨written, e', hnotes, hpure⟩ := bind_eq_ok.1 h
    obtain ⟨rfl, rfl⟩ := pure_eq_ok.1 hpure
    obtain ⟨⟨forms, rest, rfl, htext, hgap⟩, hstop⟩ := notesText_of_notes hnotes
    exact ⟨.sequence label forms, rest, rfl,
      .sequence (labelText_of_definedLabel hlabel) htext, hgap, hstop⟩
  · obtain rfl := ofMark?_injective (x := m) (y := '%') hm rfl
    obtain ⟨value, e, hvalue, hpure⟩ := bind_eq_ok.1 h
    obtain ⟨rfl, rfl⟩ := pure_eq_ok.1 hpure
    exact itemText_of_trackAttribute hvalue
  · exact absurd h fail_ne_ok

theorem trackAttribute_of_itemText {it : Item} (source : SourcePath)
    (h : ItemText it ('%' :: c.rest) rest) (hgap : GapText Text.isBlank rest after)
    (hstop : it.Stops after) :
    ∃ value d, trackAttribute source c = .ok value d ∧
      (Directive.describe value).eraseSites = it.directive ∧
      GapText Text.isBlank d.rest after := by
  cases h with
  | @name value _ _ spelled ends =>
    have hvalue : ∀ e : Cursor, e.rest = '"' :: (quoted value.toList ++ rest) →
        ∃ found d, attributeValue source .name e = .ok found d ∧
          found.eraseSites = .name value ∧ d.rest = rest := by
      intro e he
      obtain ⟨d, hd, hrest⟩ := quotedText_of_text ends he
      exact ⟨_, d, bind_eq_ok.2 ⟨value, d, hd, rfl⟩, rfl, hrest⟩
    obtain ⟨found, d, hd, hsaid, hrest⟩ :=
      trackAttribute_of_attributeText spelled rfl (by decide) hvalue
    exact ⟨found, d, hd, congrArg Directive.describe hsaid, hrest ▸ hgap⟩
  | @tempo numeral n _ _ spelled value ends =>
    obtain ⟨-, hdigits, -, -⟩ := Text.decimalBelow?_eq_some.1 value
    obtain ⟨first, hfirst, hdigit⟩ := Text.exists_digit_of_decimalBelow? value rest
    have hvalue : ∀ e : Cursor, e.rest = numeral.toList ++ rest →
        ∃ found d, attributeValue source .tempo e = .ok found d ∧
          found.eraseSites = .tempo (UInt32.ofNat n) ∧ d.rest = rest := by
      intro e he
      have hrun := run_of_text hdigits ends he
      rw [String.ofList_toList] at hrun
      have htempo := tempo_eq_ok.2 ⟨numeral, n, hrun, value, rfl⟩
      exact ⟨_, _, bind_eq_ok.2 ⟨_, _, htempo, rfl⟩, rfl, rfl⟩
    obtain ⟨found, d, hd, hsaid, hrest⟩ := trackAttribute_of_attributeText spelled hfirst
      (inner_isDigit.head hdigit) hvalue
    exact ⟨found, d, hd, congrArg Directive.describe hsaid, hrest ▸ hgap⟩
  | @channel labels _ behind _ spelled references =>
    have hrest : BehindGap rest after := hgap.behindGap (fun _ h => h) ⟨[], hstop.1⟩
    obtain ⟨first, hhead, hletter⟩ := head?_of_referencesText references
    have hvalue : ∀ e : Cursor, e.rest = behind →
        ∃ found d, attributeValue source .channel e = .ok found d ∧
          found.eraseSites = .channel (labels.map fun label => ⟨label, .nowhere⟩) ∧
          d.rest = after := by
      intro e he
      obtain ⟨found, d, hfound, hlabels, hd⟩ :=
        references_of_referencesText source references hrest hstop.2 he
      refine ⟨_, d, bind_eq_ok.2 ⟨found, d, hfound, rfl⟩, ?_, hd⟩
      rw [← hlabels]
      simp [Attribute.eraseSites, Reference.eraseSite]
    obtain ⟨found, d, hd, hsaid, hrest⟩ := trackAttribute_of_attributeText spelled hhead
      (inner_reference.head (by simp [hletter])) hvalue
    exact ⟨found, d, hd, congrArg Directive.describe hsaid, hrest ▸ .nothing⟩

/-- The text of an item is read behind its mark where nothing goes on with it. -/
theorem directive_of_itemText {it : Item} (source : SourcePath) (h : ItemText it text rest)
    (hgap : GapText Text.isBlank rest after) (hstop : it.Stops after) :
    ∃ m tail mark, text = m :: tail ∧ TokenKind.ofMark? m = some mark ∧
      ∀ c : Cursor, c.rest = tail → ∃ x d, directive source mark c = .ok x d ∧
        x.eraseSites = it.directive ∧ GapText Text.isBlank d.rest after := by
  have describes : ∀ behind, ItemText it ('%' :: behind) rest →
      ∃ m tail mark, '%' :: behind = m :: tail ∧ TokenKind.ofMark? m = some mark ∧
        ∀ c : Cursor, c.rest = tail → ∃ x d, directive source mark c = .ok x d ∧
          x.eraseSites = it.directive ∧ GapText Text.isBlank d.rest after := by
    intro behind h
    refine ⟨'%', behind, .attributeMark, rfl, rfl, fun c hc => ?_⟩
    obtain ⟨value, d, hd, hsaid, hrest⟩ := trackAttribute_of_itemText source (hc ▸ h) hgap hstop
    exact ⟨_, d, bind_eq_ok.2 ⟨_, c, rfl, bind_eq_ok.2 ⟨value, d, hd, rfl⟩⟩, hsaid, hrest⟩
  cases h with
  | @track label tail _ spelled =>
    refine ⟨'@', tail, .trackMark, rfl, rfl, fun c hc => ?_⟩
    obtain ⟨d, hd, hrest⟩ := definedLabel_of_labelText (hc ▸ spelled)
    exact ⟨_, d, bind_eq_ok.2 ⟨_, c, rfl, bind_eq_ok.2 ⟨label, d, hd, rfl⟩⟩, rfl, hrest ▸ hgap⟩
  | @sequence label forms tail behind _ spelled notes =>
    refine ⟨'$', tail, .sequenceMark, rfl, rfl, fun c hc => ?_⟩
    obtain ⟨e, he, herest⟩ := definedLabel_of_labelText (hc ▸ spelled)
    have hrest : BehindGap rest after := hgap.behindGap (fun _ h => h) ⟨[], hstop.1⟩
    obtain ⟨d, hd, hdrest⟩ := notes_of_notesText (c := e) notes hrest hstop.2 fun _ h => herest ▸ h
    exact ⟨_, d, bind_eq_ok.2 ⟨_, c, rfl, bind_eq_ok.2 ⟨label, e, he,
      bind_eq_ok.2 ⟨_, d, hd, rfl⟩⟩⟩, rfl, hdrest ▸ .nothing⟩
  | name spelled ends => exact describes _ (.name spelled ends)
  | tempo spelled value ends => exact describes _ (.tempo spelled value ends)
  | channel spelled references => exact describes _ (.channel spelled references)

end Reading

/-! ## Which item a text begins with -/

/-- A text begins with the name of one attribute only. -/
theorem AttributeText.unique {kind kind' : AttributeName} {rest' : List Char}
    (h : AttributeText kind text rest) (h' : AttributeText kind' text rest') : kind = kind' := by
  let c : Cursor := ⟨text, ⟨0, 0⟩⟩
  obtain ⟨word, d, hword, hkind, -⟩ := Reading.word_of_attributeText (c := c) h
  obtain ⟨word', d', hword', hkind', -⟩ := Reading.word_of_attributeText (c := c) h'
  obtain ⟨rfl, -⟩ := EStateM.Result.ok.inj (hword.symm.trans hword')
  exact Option.some.inj (hkind.symm.trans hkind')

/-- What does not go on with one item does not go on with any other at the same place. -/
theorem ItemText.stops {it it' : Item} {rest' : List Char} (h : ItemText it text rest)
    (h' : ItemText it' text rest') (hstop : it'.Stops after) : it.Stops after := by
  cases h with
  | track | name | tempo => trivial
  | sequence =>
    cases h' with
    | sequence => exact hstop
  | channel spelled =>
    cases h' with
    | channel => exact hstop
    | name spelled' | tempo spelled' => cases spelled.unique spelled'

theorem atMark_of_itemText {it : Item} (h : ItemText it text rest) : AtMark text := by
  cases h with
  | track => exact fun c hc => .inl (Option.some.inj hc).symm
  | sequence => exact fun c hc => .inr (.inl (Option.some.inj hc).symm)
  | name | tempo | channel => exact fun c hc => .inr (.inr (Option.some.inj hc).symm)

/-- An item begins with a mark. -/
theorem exists_mark_of_itemText {it : Item} (h : ItemText it text rest) :
    ∃ m tail kind, text = m :: tail ∧ TokenKind.ofMark? m = some kind ∧ m ≠ '/' ∧
      kind ≠ .blank := by
  cases h with
  | track => exact ⟨'@', _, .trackMark, rfl, rfl, by decide, by simp⟩
  | sequence => exact ⟨'$', _, .sequenceMark, rfl, rfl, by decide, by simp⟩
  | name | tempo | channel => exact ⟨'%', _, .attributeMark, rfl, rfl, by decide, by simp⟩

/-- Behind an item, another one or the end of the text may follow. -/
theorem Item.stops_of_atMark (it : Item) (h : AtMark after) : it.Stops after := by
  cases it with
  | sequence label forms =>
    exact ⟨h.behindGap.gapAt_rest, h.stops inner_isKeyChar⟩
  | channel labels => exact ⟨h.behindGap.gapAt_rest, h.stops inner_reference⟩
  | track | name | tempo => trivial

end Songsheet
