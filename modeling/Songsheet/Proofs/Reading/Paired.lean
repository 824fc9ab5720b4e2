import Songsheet.Proofs.Blur
import Songsheet.Proofs.Reading

/-!
# Readings in pairs

Two readings, each of a text of its own, are compared side by side. A pairing says which cursors
belong together and how positions are blurred. It also says how far the first reading may go: only
as long as it stays there do the two have to come to the same.

* `Matches` — both results are values that are alike, or diagnostics that look the same.
* `Pairing.Reads` — from every two cursors that belong together, two readings come to results that
  match, and leave cursors that belong together.
* `Matches.bind`, `Pairing.matches_bind`, `Pairing.Reads.bind` — sequencing, for two results, for
  two results within the limits of a pairing, and for whole readings.
-/

namespace Songsheet.Reading

variable {α β γ δ : Type} {b : Blur} {c c' : Cursor} {p p' : Position} {cause : Cause}

/-! ## Results that match -/

/-- Both readings have succeeded, with values and cursors that are so related, or both have failed
with diagnostics that look the same. -/
def Matches (b : Blur) (E : α → β → Prop) (K : Cursor → Cursor → Prop) :
    EStateM.Result Diagnostic Cursor α → EStateM.Result Diagnostic Cursor β → Prop
  | .ok a d, .ok a' d' => E a a' ∧ K d d'
  | .error e _, .error e' _ => b.diagnostic e = b.diagnostic e'
  | _, _ => False

section Matches

variable {E : α → β → Prop} {F : γ → δ → Prop} {K L : Cursor → Cursor → Prop}
  {x : EStateM.Result Diagnostic Cursor α} {y : EStateM.Result Diagnostic Cursor β}
  {r : Reading α} {r' : Reading β} {f : α → Reading γ} {f' : β → Reading δ}

theorem Matches.mono {E' : α → β → Prop} (h : Matches b E K x y) (hE : ∀ a a', E a a' → E' a a')
    (hK : ∀ d d', K d d' → L d d') : Matches b E' L x y := by
  cases x with
  | ok a d =>
    cases y with
    | ok a' d' => exact ⟨hE a a' h.1, hK d d' h.2⟩
    | error e' d' => exact h
  | error e d =>
    cases y with
    | ok a' d' => exact h
    | error e' d' => exact h

theorem Matches.exists_ok {a : α} {d : Cursor} (h : Matches b E K (.ok a d) y) :
    ∃ a' d', y = .ok a' d' ∧ E a a' ∧ K d d' := by
  cases y with
  | ok a' d' => exact ⟨a', d', rfl, h⟩
  | error e' d' => exact absurd h id

theorem Matches.exists_error {e : Diagnostic} {d : Cursor} (h : Matches b E K (.error e d) y) :
    ∃ e' d', y = .error e' d' ∧ b.diagnostic e = b.diagnostic e' := by
  cases y with
  | ok a' d' => exact absurd h id
  | error e' d' => exact ⟨e', d', rfl, h⟩

/-- Two readings in sequence match if the first ones do and the second ones do behind them. -/
theorem Matches.bind (h : Matches b E K (r c) (r' c'))
    (hf : ∀ a d a' d', r c = .ok a d → E a a' → K d d' → Matches b F L (f a d) (f' a' d')) :
    Matches b F L ((r >>= f) c) ((r' >>= f') c') := by
  rw [bind_apply, bind_apply]
  cases hr : r c with
  | ok a d =>
    rw [hr] at h
    obtain ⟨a', d', hr', ha, hd⟩ := h.exists_ok
    rw [hr']
    exact hf a d a' d' hr ha hd
  | error e d =>
    rw [hr] at h
    obtain ⟨e', d', hr', he⟩ := h.exists_error
    rw [hr']
    exact he

theorem matches_fail (h : b.see p = b.see p') :
    Matches b E K ((fail cause p : Reading α) c) ((fail cause p' : Reading β) c') :=
  b.diagnostic_reportedAt cause h

/-- Two readings that remember where they begin. -/
theorem matches_bind_position {g : Position → Reading γ} {g' : Position → Reading δ}
    (h : Matches b F L (g c.position c) (g' c'.position c')) :
    Matches b F L ((position >>= g) c) ((position >>= g') c') :=
  h

end Matches

/-- Two tokens of one kind, at places that look the same. -/
def TokensAlike (b : Blur) (t t' : Token) : Prop :=
  t.kind = t'.kind ∧ b.see t.position = b.see t'.position

/-! ## Pairings -/

/-- Which cursors of two readings belong together, how positions are blurred, and where the first
reading may be. It cannot come back to where it may be. -/
structure Pairing where
  blur : Blur
  pair : Cursor → Cursor → Prop
  within : Cursor → Prop
  place : ∀ {c c' : Cursor}, pair c c' → blur.see c.position = blur.see c'.position
  back : ∀ {c d : Cursor}, c.Reaches d → within d → within c

namespace Pairing

variable {P : Pairing} {E : α → β → Prop} {F : γ → δ → Prop}

/-- Two results within the limits of a pairing, in sequence. -/
theorem matches_bind {r : Reading α} {r' : Reading β} {f : α → Reading γ} {f' : β → Reading δ}
    (hr : P.within (cursorLeft (r c)) → Matches P.blur E P.pair (r c) (r' c'))
    (hforward : ∀ a, (f a).Forward)
    (hf : ∀ a d a' d', r c = .ok a d → E a a' → P.pair d d' → P.within (cursorLeft (f a d)) →
      Matches P.blur F P.pair (f a d) (f' a' d'))
    (hwithin : P.within (cursorLeft ((r >>= f) c))) :
    Matches P.blur F P.pair ((r >>= f) c) ((r' >>= f') c') := by
  apply (hr (P.back (reaches_bind hforward c) hwithin)).bind
  intro a d a' d' h ha hd
  rw [bind_apply, h] at hwithin
  exact hf a d a' d' h ha hd hwithin

/-- Where the first reading stays within the limits of a pairing, the second one comes to the same,
from every two cursors that belong together. -/
structure Reads (P : Pairing) (E : α → α → Prop) (r r' : Reading α) : Prop where
  forward : r.Forward
  result : ∀ c c', P.pair c c' → P.within (cursorLeft (r c)) →
    Matches P.blur E P.pair (r c) (r' c')

/-- Where the first reading is known to succeed, so does the second one. -/
theorem Reads.exists_ok {E : α → α → Prop} {r r' : Reading α} {a : α} {d : Cursor}
    (h : P.Reads E r r') (hpair : P.pair c c') (hr : r c = .ok a d) (hd : P.within d) :
    ∃ a' d', r' c' = .ok a' d' ∧ E a a' ∧ P.pair d d' := by
  have hread := h.result c c' hpair
  rw [hr] at hread
  exact (hread hd).exists_ok

/-- Two readings in sequence, of which the first one is known to succeed. -/
theorem Reads.bind_ok {E : α → α → Prop} {K : Cursor → Cursor → Prop} {r r' : Reading α}
    {f : α → Reading γ} {f' : α → Reading δ} {a : α} {d : Cursor} (h : P.Reads E r r')
    (hpair : P.pair c c') (hr : r c = .ok a d) (hd : P.within d)
    (hf : ∀ a' d', E a a' → P.pair d d' → Matches P.blur F K (f a d) (f' a' d')) :
    Matches P.blur F K ((r >>= f) c) ((r' >>= f') c') := by
  obtain ⟨a', d', hr', ha, hpair'⟩ := h.exists_ok hpair hr hd
  rw [bind_apply, bind_apply, hr, hr']
  exact hf a' d' ha hpair'

variable {E : α → α → Prop} {F : β → β → Prop}

theorem reads_pure {a a' : α} (h : E a a') : P.Reads E (pure a) (pure a') where
  forward := forward_pure a
  result := fun _ _ hpair _ => ⟨h, hpair⟩

theorem reads_fail (h : P.blur.see p = P.blur.see p') :
    P.Reads E (fail cause p) (fail cause p') where
  forward := forward_fail cause p
  result := fun _ _ _ _ => matches_fail h

theorem reads_position :
    P.Reads (fun p p' => P.blur.see p = P.blur.see p') position position where
  forward := forward_position
  result := fun _ _ hpair _ => ⟨P.place hpair, hpair⟩

theorem reads_ofExcept {x x' : Except Diagnostic α} {f : α → β}
    (h : P.blur.outcome f x = P.blur.outcome f x') :
    P.Reads (fun a a' => f a = f a') (ofExcept x) (ofExcept x') where
  forward := forward_ofExcept x
  result := by
    intro c c' hpair _
    cases x with
    | ok a =>
      cases x' with
      | ok a' => exact ⟨Except.ok.inj h, hpair⟩
      | error e' => cases h
    | error e =>
      cases x' with
      | ok a' => cases h
      | error e' => exact Except.error.inj h

/-- Whole readings in sequence. Values must be like themselves, so that the second reading moves on
whatever the first one answers. -/
theorem Reads.bind {r r' : Reading α} {f f' : α → Reading β} (hr : P.Reads E r r')
    (hrefl : ∀ a, E a a) (hf : ∀ a a', E a a' → P.Reads F (f a) (f' a')) :
    P.Reads F (r >>= f) (r' >>= f') where
  forward := forward_bind hr.forward fun a => (hf a a (hrefl a)).forward
  result := by
    intro c c' hpair hwithin
    refine matches_bind (hr.result c c' hpair) (fun a => (hf a a (hrefl a)).forward) ?_ hwithin
    intro a d a' d' _ ha hd hstay
    exact (hf a a' ha).result d d' hd hstay

theorem Reads.bind_eq {r r' : Reading α} {f f' : α → Reading β} (hr : P.Reads Eq r r')
    (hf : ∀ a, P.Reads F (f a) (f' a)) : P.Reads F (r >>= f) (r' >>= f') := by
  apply hr.bind fun _ => rfl
  intro a a' ha
  rw [← ha]
  exact hf a

/-- A value computed from what was read. -/
theorem Reads.map {r r' : Reading α} {g : α → β} (hr : P.Reads E r r')
    (hg : ∀ a a', E a a' → F (g a) (g a')) (hrefl : ∀ a, E a a) :
    P.Reads F (r >>= fun a => pure (g a)) (r' >>= fun a => pure (g a)) :=
  hr.bind hrefl fun a a' ha => reads_pure (hg a a' ha)

end Pairing

end Songsheet.Reading
