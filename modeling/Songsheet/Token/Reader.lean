import Songsheet.Gap
import Songsheet.QuotedText

/-!
# Reading tokens

`Reading.nextToken` reads one token; comments in front of it are skipped. A run of blanks with
the comments in it is one token, so between two other tokens there is at most one blank. Any
character that begins no other token begins a pitch key.

* `forward_nextToken` — a token is read by moving on through the text.
* `length_of_nextToken` — a token other than the end of the text takes at least one character.
* `Reading.tokens` — all tokens up to the end of the text, which is the last of them.
-/

namespace Songsheet.Reading

/-! ## One token -/

/-- Reads a pitch key: any character and the key characters behind it. -/
def key : Reading String := fun c =>
  match c.rest with
  | [] => .ok "" c
  | first :: text =>
    let read := first :: text.takeWhile isKeyChar
    .ok (String.ofList read) (c.past read (text.dropWhile isKeyChar))

/-- Reads the token that begins with the next character, `first`. -/
def kindFrom (first : Char) : Reading TokenKind :=
  if Text.isBlank first then do
    skipGap
    return .blank
  else if first.isDigit then do
    return .number (← digits)
  else if first = '"' then do
    return .quoted (← quotedText)
  else match TokenKind.ofMark? first with
    | some kind => do
      drop
      return kind
    | none =>
      if Text.isControl first then do
        drop
        return .invalid first
      else do
        return .key (← key)

/-- Reads the next token. -/
def nextToken : Reading Token := do
  skipComments
  let start ← position
  match ← peek? with
  | none => return ⟨.endOfText, start⟩
  | some first => return ⟨← kindFrom first, start⟩

theorem forward_key : Forward key := by
  intro c
  simp only [key]
  split
  · exact Cursor.Reaches.refl c
  · rename_i first text h
    exact Cursor.reaches_past (by simp [h])

theorem forward_kindFrom (first : Char) : Forward (kindFrom first) := by
  unfold kindFrom
  split
  · exact forward_bind forward_skipGap fun _ => forward_pure _
  split
  · exact forward_bind forward_digits fun _ => forward_pure _
  split
  · exact forward_bind forward_quotedText fun _ => forward_pure _
  split
  · exact forward_bind forward_drop fun _ => forward_pure _
  split
  · exact forward_bind forward_drop fun _ => forward_pure _
  · exact forward_bind forward_key fun _ => forward_pure _

theorem forward_nextToken : Forward nextToken := by
  refine forward_bind forward_skipComments fun _ => forward_bind forward_position fun _ =>
    forward_bind forward_peek? fun next => ?_
  cases next with
  | none => exact forward_pure _
  | some first => exact forward_bind (forward_kindFrom first) fun _ => forward_pure _

/-! ## Progress -/

/-- A reading that takes at least one character whenever it succeeds on a text that begins
with `first`. -/
def Consumes (first : Char) {α : Type} (r : Reading α) : Prop :=
  ∀ (c d : Cursor) (a : α), c.peek? = some first → r c = .ok a d →
    d.rest.length < c.rest.length

theorem consumes_bind {α β : Type} {first : Char} {r : Reading α} {f : α → Reading β}
    (hr : Consumes first r) (hf : ∀ a, (f a).Forward) : Consumes first (r >>= f) := by
  intro c d b hc h
  rw [bind_apply] at h
  cases hrc : r c with
  | ok a e =>
    rw [hrc] at h
    have := ((hf a).ok h).length_le
    have := hr c e a hc hrc
    omega
  | error e d => rw [hrc] at h; simp at h

theorem consumes_drop (first : Char) : Consumes first drop := by
  intro c d _ hc h
  obtain ⟨rest, position⟩ := c
  cases rest with
  | nil => simp [Cursor.peek?] at hc
  | cons x rest =>
    simp only [drop, Cursor.past, EStateM.Result.ok.injEq] at h
    simp [← h.2]

theorem consumes_run {first : Char} {within : Char → Bool} (hw : within first) :
    Consumes first (run within) := by
  intro c d _ hc h
  obtain ⟨rest, position⟩ := c
  cases rest with
  | nil => simp [Cursor.peek?] at hc
  | cons x rest =>
    have hx : x = first := by simpa [Cursor.peek?] using hc
    subst hx
    simp only [run, Cursor.past, EStateM.Result.ok.injEq] at h
    have := length_dropWhile_le within rest
    simp only [← h.2, List.dropWhile_cons, hw, if_true, List.length_cons]
    omega

theorem consumes_key (first : Char) : Consumes first key := by
  intro c d _ hc h
  obtain ⟨rest, position⟩ := c
  cases rest with
  | nil => simp [Cursor.peek?] at hc
  | cons x rest =>
    simp only [key, Cursor.past, EStateM.Result.ok.injEq] at h
    have := length_dropWhile_le isKeyChar rest
    simp only [← h.2, List.length_cons]
    omega

theorem consumes_quotedText (first : Char) : Consumes first quotedText := by
  intro c d _ _ h
  simp only [quotedText] at h
  split at h
  · rename_i form hr
    split at h
    · rename_i text rest hu
      simp only [EStateM.Result.ok.injEq] at h
      rw [hr, ← h.2, (quoted_of_unquoted? hu).1]
      simp only [Cursor.past, List.length_cons, List.length_append]
      omega
    · simp at h
  · simp at h

theorem consumes_skip {first : Char} {blank : Char → Bool} (hb : blank first)
    (hs : first ≠ '/') : Consumes first (skip blank) := by
  intro c d _ hc h
  obtain ⟨rest, position⟩ := c
  cases rest with
  | nil => simp [Cursor.peek?] at hc
  | cons x rest =>
    have hx : x = first := by simpa [Cursor.peek?] using hc
    subst hx
    have hg := gapAt_cons_of_blank hb hs rest
    have hw := Gap.whole_gapAt blank rest
    simp only [skip, hg] at h
    cases hgr : gapAt blank rest with
    | upTo skipped tail =>
      rw [hgr] at h hw
      simp only [Gap.behind, EStateM.Result.ok.injEq] at h
      simp only [← h.2, Cursor.past, ← hw, Gap.whole, List.length_cons, List.length_append]
      omega
    | unclosed before comment =>
      rw [hgr] at h
      simp [Gap.behind] at h

theorem consumes_kindFrom (first : Char) : Consumes first (kindFrom first) := by
  unfold kindFrom
  split
  · rename_i hb
    exact consumes_bind (consumes_skip hb (Text.ne_slash_of_isBlank hb)) fun _ => forward_pure _
  split
  · rename_i hd
    exact consumes_bind (consumes_run hd) fun _ => forward_pure _
  split
  · exact consumes_bind (consumes_quotedText first) fun _ => forward_pure _
  split
  · exact consumes_bind (consumes_drop first) fun _ => forward_pure _
  split
  · exact consumes_bind (consumes_drop first) fun _ => forward_pure _
  · exact consumes_bind (consumes_key first) fun _ => forward_pure _

theorem kindFrom_ne_endOfText {first : Char} {c d : Cursor} {kind : TokenKind}
    (h : kindFrom first c = .ok kind d) : kind ≠ .endOfText := by
  rintro rfl
  unfold kindFrom at h
  split at h
  · cases hr : skipGap c <;> simp [bind_apply, hr, pure, EStateM.pure] at h
  split at h
  · cases hr : digits c <;> simp [bind_apply, hr, pure, EStateM.pure] at h
  split at h
  · cases hr : quotedText c <;> simp [bind_apply, hr, pure, EStateM.pure] at h
  cases hm : TokenKind.ofMark? first with
  | some kind =>
    simp only [hm, bind_apply, drop, pure, EStateM.pure, EStateM.Result.ok.injEq] at h
    rw [h.1] at hm
    unfold TokenKind.ofMark? at hm
    split at hm <;> simp at hm
  | none =>
    rw [hm] at h
    dsimp only at h
    split at h
    · simp [bind_apply, drop, pure, EStateM.pure] at h
    · cases hr : key c <;> simp [bind_apply, hr, pure, EStateM.pure] at h

theorem nextToken_apply (c : Cursor) :
    nextToken c = match skipComments c with
      | .error e d => .error e d
      | .ok _ d => match d.peek? with
        | none => .ok ⟨.endOfText, d.position⟩ d
        | some first => match kindFrom first d with
          | .error e d' => .error e d'
          | .ok kind d' => .ok ⟨kind, d.position⟩ d' := by
  simp only [nextToken, bind_apply, position, peek?]
  cases skipComments c with
  | error e d => rfl
  | ok _ d =>
    dsimp only
    cases d.peek? with
    | none => rfl
    | some first =>
      simp only [bind_apply]
      cases kindFrom first d <;> rfl

theorem length_of_nextToken {c d : Cursor} {t : Token} (h : nextToken c = .ok t d)
    (ht : t.kind ≠ .endOfText) : d.rest.length < c.rest.length := by
  rw [nextToken_apply] at h
  cases hs : skipComments c with
  | error e d' => rw [hs] at h; simp at h
  | ok u d' =>
    rw [hs] at h
    dsimp only at h
    have hle := (forward_skipComments.ok hs).length_le
    split at h
    · simp only [EStateM.Result.ok.injEq] at h
      exact absurd (by rw [← h.1]) ht
    · rename_i first hp
      split at h
      · simp at h
      · rename_i kind d'' hk
        simp only [EStateM.Result.ok.injEq] at h
        have := consumes_kindFrom first d' d'' kind hp hk
        rw [← h.2]
        omega

/-! ## All tokens -/

/-- Reads all tokens that are left; the last one is the end of the text. -/
def tokens : Reading (List Token) := fun c =>
  match _h : nextToken c with
  | .error e d => .error e d
  | .ok t d =>
    if _ht : t.kind = .endOfText then .ok [t] d
    else match tokens d with
      | .error e d' => .error e d'
      | .ok ts d' => .ok (t :: ts) d'
termination_by c => c.rest.length
decreasing_by exact length_of_nextToken _h _ht

theorem forward_tokens : Forward tokens := by
  intro c
  fun_induction tokens c with
  | case1 c e d h =>
    have hc := forward_nextToken c
    rw [h] at hc
    exact hc
  | case2 c t d h ht => exact forward_nextToken.ok h
  | case3 c t d h ht e d' hd ih =>
    rw [hd] at ih
    exact (forward_nextToken.ok h).trans ih
  | case4 c t d h ht ts d' hd ih =>
    rw [hd] at ih
    exact (forward_nextToken.ok h).trans ih

end Songsheet.Reading
