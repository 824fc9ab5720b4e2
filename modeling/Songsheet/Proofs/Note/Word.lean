import Songsheet.Note

/-!
# Notes packed into words

A note packs into a word of four bytes, and packing is one-to-one onto the words whose low byte
numbers a pitch. So a word is as good as the note that it packs, and the word 0 stands for no note.

* `word_eq_or`, `ofWord?_eq_bytes` — the layout of a word: each field is put into a byte of its own
  and taken from there.
* `ofWord?_eq_some_iff`, `ofWord?_eq_none_iff` — which words are unpacked, and into which notes.
* `word_bijective` — every note is unpacked from its word, every word that is unpacked is the word of
  its note, and the others are those with a low byte above 12.
-/

namespace Songsheet

/-! ## Bytes and pitches -/

/-- A byte that is moved up by at most 24 places loses nothing. -/
theorem toNat_shiftLeft_toUInt32 (byte : UInt8) {k : UInt32} (h : k.toNat ≤ 24) :
    (byte.toUInt32 <<< k).toNat = byte.toNat <<< k.toNat := by
  have hbyte := byte.toNat_lt
  have hpow : 2 ^ k.toNat ≤ 2 ^ 24 := Nat.pow_le_pow_right (by decide) h
  have hless : byte.toNat * 2 ^ k.toNat < 2 ^ 8 * 2 ^ 24 :=
    Nat.mul_lt_mul_of_lt_of_le hbyte hpow (by decide)
  rw [← Nat.pow_add] at hless
  rw [UInt32.toNat_shiftLeft, UInt8.toNat_toUInt32, Nat.mod_eq_of_lt (by omega : k.toNat < 32),
    Nat.shiftLeft_eq, Nat.mod_eq_of_lt hless]

/-- Pitches stand in the order of their numbers. -/
theorem Pitch.number_getElem_all : ∀ (k : Nat) (hk : k < all.length), all[k].number = k := by
  decide

theorem Pitch.ofNumber?_eq_some_iff {k : Nat} {p : Pitch} :
    ofNumber? k = some p ↔ p.number = k := by
  constructor
  · intro h
    obtain ⟨hk, rfl⟩ := List.getElem?_eq_some_iff.1 h
    exact number_getElem_all k hk
  · rintro rfl
    exact ofNumber?_number p

theorem Pitch.ofNumber?_eq_none_iff {k : Nat} : ofNumber? k = none ↔ 12 < k := by
  rw [ofNumber?, List.getElem?_eq_none_iff]
  exact Nat.succ_le_iff

namespace Note

variable {w : UInt32} {n : Note}

/-! ## The layout of a word -/

/-- From the low byte up, a word holds the pitch, the octave, the bars and the fraction. -/
theorem word_eq_or (n : Note) :
    n.word = UInt32.ofNat n.pitch.number ||| n.octave.toUInt32 <<< 8 |||
      n.duration.bars.toUInt32 <<< 16 ||| n.duration.fraction.toUInt32 <<< 24 := by
  have hp := n.pitch.number_lt
  have ho := n.octave.toNat_lt
  have hb := n.duration.bars.toNat_lt
  have hnumber : (UInt32.ofNat n.pitch.number).toNat = n.pitch.number :=
    UInt32.toNat_ofNat_of_lt' (by simp only [UInt32.size]; omega)
  apply UInt32.toNat_inj.1
  rw [word_toNat, UInt32.toNat_or, UInt32.toNat_or, UInt32.toNat_or, hnumber,
    toNat_shiftLeft_toUInt32 _ (by decide), toNat_shiftLeft_toUInt32 _ (by decide),
    toNat_shiftLeft_toUInt32 _ (by decide)]
  show n.value = _ ||| _ <<< 8 ||| _ <<< 16 ||| _ <<< 24
  -- The bytes do not overlap, so they are put together by adding them.
  rw [Nat.or_comm _ (_ <<< 8), ← Nat.shiftLeft_add_eq_or_of_lt (by omega),
    Nat.or_comm _ (_ <<< 16), ← Nat.shiftLeft_add_eq_or_of_lt (by omega),
    Nat.or_comm _ (_ <<< 24), ← Nat.shiftLeft_add_eq_or_of_lt (by omega)]
  simp only [value, Nat.shiftLeft_eq]
  omega

/-- A note is unpacked from the four bytes of a word. -/
theorem ofWord?_eq_bytes (w : UInt32) :
    ofWord? w = (Pitch.ofNumber? w.toUInt8.toNat).map fun pitch =>
      ⟨pitch, (w >>> 8).toUInt8, ⟨(w >>> 16).toUInt8, (w >>> 24).toUInt8⟩⟩ := by
  have hbyte : ∀ k : UInt32, k.toNat < 32 →
      (w >>> k).toUInt8 = UInt8.ofNat (w.toNat / 2 ^ k.toNat % 0x100) := by
    intro k hk
    apply UInt8.toNat_inj.1
    rw [UInt32.toNat_toUInt8, UInt32.toNat_shiftRight, Nat.mod_eq_of_lt hk,
      Nat.shiftRight_eq_div_pow, UInt8.toNat_ofNat', Nat.mod_mod]
  rw [hbyte 8 (by decide), hbyte 16 (by decide), hbyte 24 (by decide), UInt32.toNat_toUInt8]
  rfl

/-! ## Packing and unpacking -/

theorem ofWord?_eq_some_iff : ofWord? w = some n ↔ n.word = w := by
  constructor
  · intro h
    obtain ⟨pitch, hpitch, rfl⟩ := Option.map_eq_some_iff.1 h
    have hlow := Pitch.ofNumber?_eq_some_iff.1 hpitch
    have hw := w.toNat_lt
    apply UInt32.toNat_inj.1
    rw [word_toNat]
    simp only [value, hlow, UInt8.toNat_ofNat']
    omega
  · rintro rfl
    exact ofWord?_word n

theorem ofWord?_eq_none_iff : ofWord? w = none ↔ 12 < w.toUInt8 := by
  rw [ofWord?_eq_bytes, Option.map_eq_none_iff, Pitch.ofNumber?_eq_none_iff, UInt8.lt_iff_toNat_lt]
  rfl

/-- **Packing is one-to-one.** The four fields of a note are put into the four bytes of a word, and
are taken from there. Every note is unpacked from its word, a word that is unpacked is the word of its
note, and a word is not unpacked exactly if its low byte is above 12. So different notes have different
words, and 0 is the word of the empty note alone. -/
theorem word_bijective :
    (∀ n : Note, n.word = UInt32.ofNat n.pitch.number ||| n.octave.toUInt32 <<< 8 |||
      n.duration.bars.toUInt32 <<< 16 ||| n.duration.fraction.toUInt32 <<< 24) ∧
    (∀ w : UInt32, ofWord? w = (Pitch.ofNumber? w.toUInt8.toNat).map fun pitch =>
      ⟨pitch, (w >>> 8).toUInt8, ⟨(w >>> 16).toUInt8, (w >>> 24).toUInt8⟩⟩) ∧
    (∀ n : Note, ofWord? n.word = some n) ∧
    (∀ (w : UInt32) (n : Note), ofWord? w = some n ↔ n.word = w) ∧
    (∀ w : UInt32, ofWord? w = none ↔ 12 < w.toUInt8) ∧
    (∀ m n : Note, m.word = n.word ↔ m = n) ∧
    ∀ n : Note, n.word = 0 ↔ n = empty := by
  have hinjective : ∀ m n : Note, m.word = n.word ↔ m = n := by
    intro m n
    rw [← ofWord?_eq_some_iff, ofWord?_word, Option.some.injEq, eq_comm]
  refine ⟨word_eq_or, ofWord?_eq_bytes, ofWord?_word, fun w n => ofWord?_eq_some_iff,
    fun w => ofWord?_eq_none_iff, hinjective, fun n => ?_⟩
  have hempty : empty.word = 0 := by decide
  rw [← hempty, hinjective]

end Note

end Songsheet
