import Songsheet.Proofs.Note.Text

/-!
# Exact durations

The two numbers of a duration clause are 32-bit words. The clause is worked out in 64-bit words and
stored in two bytes, by two divisions: one for the whole bars and one for what is left of them.
Nothing is lost on the way, and the two bytes together are one division rounded down.

* `Duration.ofWords`, `Duration.ofWords_eq` — the computation in words is the one in numbers.
* `Duration.parts_of_ofRatio`, `Duration.parts_injective` — a duration is the number of its parts.
* `durationClause_of_clauseText` — what a clause comes to depends on its two numbers alone.
* `durationClause_exact` — which clauses are durations, and durations are ordered as ratios are.
-/

namespace Songsheet

namespace Duration

/-! ## The computation in words -/

/-- The duration of `num/den` bars worked out in 64-bit words, which wrap, and narrowed to bytes. -/
def ofWords (num den : UInt64) : Except Fault Duration :=
  if den = 0 then .error .zeroDenominator
  else if 256 ≤ num / den then .error .tooLong
  else .ok ⟨(num / den).toUInt8, (256 * num / den % 256).toUInt8⟩

variable {n m : Nat} {x y : Duration}

theorem toNat_word (hn : n < UInt32.size) : (UInt64.ofNat n).toNat = n := by
  rw [UInt64.toNat_ofNat']
  exact Nat.mod_eq_of_lt (Nat.lt_trans hn (by decide))

/-- The product with the parts of a bar does not wrap. -/
theorem toNat_scaled (hn : n < UInt32.size) : (256 * UInt64.ofNat n).toNat = 256 * n := by
  rw [UInt64.toNat_mul, toNat_word hn]
  refine Nat.mod_eq_of_lt ?_
  rw [UInt32.size] at hn
  show 256 * n < 2 ^ 64
  omega

theorem ofWords_eq (hn : n < UInt32.size) (hm : m < UInt32.size) :
    ofWords (.ofNat n) (.ofNat m) = ofRatio n m := by
  have hzero : (UInt64.ofNat m = 0) ↔ m = 0 := by
    rw [← UInt64.toNat_inj, toNat_word hm]
    rfl
  have hbars : (UInt64.ofNat n / UInt64.ofNat m).toNat = n / m := by
    rw [UInt64.toNat_div, toNat_word hn, toNat_word hm]
  have hparts : (256 * UInt64.ofNat n / UInt64.ofNat m % 256).toNat = 256 * n / m % 256 := by
    rw [UInt64.toNat_mod, UInt64.toNat_div, toNat_scaled hn, toNat_word hm]
    rfl
  have hlong : (256 ≤ UInt64.ofNat n / UInt64.ofNat m) ↔ 256 ≤ n / m := by
    rw [UInt64.le_iff_toNat_le, hbars]
    rfl
  have hnarrow : ∀ w : UInt64, w.toUInt8 = UInt8.ofNat w.toNat := fun w =>
    UInt8.toNat_inj.1 (by simp)
  simp only [ofWords, ofRatio, hzero, hlong, hnarrow, hbars, hparts, partsPerBar]

/-! ## Durations as numbers of parts -/

theorem bars_toNat_of_ofRatio (h : ofRatio n m = .ok x) :
    x.bars.toNat = n / m ∧ x.fraction.toNat = 256 * n / m % 256 := by
  obtain ⟨hdefined, hshort, rfl⟩ := ofRatio_eq_ok.1 h
  have hbars : n / m < 256 := (Nat.div_lt_iff_lt_mul (Nat.pos_of_ne_zero hdefined)).2 hshort
  have hparts : 256 * n / m % 256 < 256 := Nat.mod_lt _ (by decide)
  rw [UInt8.toNat_ofNat', UInt8.toNat_ofNat']
  exact ⟨Nat.mod_eq_of_lt hbars, Nat.mod_eq_of_lt hparts⟩

/-- The whole bars and the rest of them recombine: no carry is lost between the two divisions. -/
theorem parts_of_ofRatio (h : ofRatio n m = .ok x) : x.parts = 256 * n / m := by
  obtain ⟨hbars, hfraction⟩ := bars_toNat_of_ofRatio h
  have hwhole : n / m = 256 * n / m / 256 := by
    rw [Nat.div_div_eq_div_mul, Nat.mul_comm m, Nat.mul_div_mul_left _ _ (by decide)]
  calc x.parts = 256 * (n / m) + 256 * n / m % 256 := by rw [parts, hbars, hfraction, partsPerBar]
    _ = 256 * (256 * n / m / 256) + 256 * n / m % 256 := by rw [← hwhole]
    _ = 256 * n / m := Nat.div_add_mod _ _

theorem parts_injective (h : x.parts = y.parts) : x = y := by
  obtain ⟨bars, fraction⟩ := x
  obtain ⟨bars', fraction'⟩ := y
  have hfraction := fraction.toNat_lt
  have hfraction' := fraction'.toNat_lt
  simp only [parts, partsPerBar] at h
  congr 1
  · exact UInt8.toNat_inj.1 (by omega)
  · exact UInt8.toNat_inj.1 (by omega)

/-- Every duration is the one of its parts in 256ths of a bar. -/
theorem ofRatio_parts (x : Duration) : ofRatio x.parts 256 = .ok x := by
  have hlt := x.parts_lt
  have hok : ofRatio x.parts 256 =
      .ok ⟨UInt8.ofNat (x.parts / 256), UInt8.ofNat (256 * x.parts / 256 % 256)⟩ :=
    ofRatio_eq_ok.2 ⟨by decide, by omega, rfl⟩
  rw [hok]
  refine congrArg _ (parts_injective ?_)
  rw [parts_of_ofRatio hok, Nat.mul_div_cancel_left _ (by decide)]

theorem exists_ofRatio (hm : 0 < m) (hn : n < 256 * m) : ∃ x, ofRatio n m = .ok x :=
  ⟨_, ofRatio_eq_ok.2 ⟨Nat.ne_of_gt hm, hn, rfl⟩⟩

/-- A larger ratio has no fewer parts. -/
theorem scaled_le {n' m' : Nat} (hm : 0 < m) (hm' : 0 < m') (h : n * m' ≤ n' * m) :
    256 * n / m ≤ 256 * n' / m' := by
  rw [Nat.le_div_iff_mul_le hm']
  refine Nat.le_of_mul_le_mul_right ?_ hm
  calc 256 * n / m * m' * m = 256 * n / m * m * m' := Nat.mul_right_comm _ _ _
    _ ≤ 256 * n * m' := Nat.mul_le_mul_right _ (Nat.div_mul_le_self _ _)
    _ = 256 * (n * m') := Nat.mul_assoc _ _ _
    _ ≤ 256 * (n' * m) := Nat.mul_le_mul_left _ h
    _ = 256 * n' * m := (Nat.mul_assoc _ _ _).symm

theorem ofRatio_congr {n' m' : Nat} (hm' : 0 < m') (h : n * m' = n' * m)
    (hx : ofRatio n m = .ok x) : ofRatio n' m' = .ok x := by
  obtain ⟨hdefined, hshort, -⟩ := ofRatio_eq_ok.1 hx
  have hm : 0 < m := Nat.pos_of_ne_zero hdefined
  have hshort' : n' < 256 * m' := by
    refine Nat.lt_of_mul_lt_mul_right (a := m) ?_
    calc n' * m = n * m' := h.symm
      _ < 256 * m * m' := Nat.mul_lt_mul_of_pos_right hshort hm'
      _ = 256 * m' * m := Nat.mul_right_comm _ _ _
  obtain ⟨y, hy⟩ := exists_ofRatio hm' hshort'
  rw [hy]
  refine congrArg _ (parts_injective ?_)
  rw [parts_of_ofRatio hx, parts_of_ofRatio hy]
  exact Nat.le_antisymm (scaled_le hm' hm (Nat.le_of_eq h.symm))
    (scaled_le hm hm' (Nat.le_of_eq h))

theorem parts_le_of_ofRatio {n' m' : Nat} (h : n * m' ≤ n' * m) (hx : ofRatio n m = .ok x)
    (hy : ofRatio n' m' = .ok y) : x.parts ≤ y.parts := by
  rw [parts_of_ofRatio hx, parts_of_ofRatio hy]
  exact scaled_le (Nat.pos_of_ne_zero (ofRatio_eq_ok.1 hx).1)
    (Nat.pos_of_ne_zero (ofRatio_eq_ok.1 hy).1) h

end Duration

/-! ## Clauses -/

/-- Some clause with these two numbers is read as this duration. -/
def ClauseGives (n m : Nat) (duration : Duration) : Prop :=
  ∃ (start : Position) (c d : Cursor), ClauseText n m c.rest d.rest ∧
    Reading.durationClause start c = .ok duration d

theorem lt_of_clauseText {n m : Nat} {text rest : List Char} (h : ClauseText n m text rest) :
    n < UInt32.size ∧ m < UInt32.size := by
  obtain ⟨num, den, t₁, t₂, hnum, hden, -⟩ := h
  exact ⟨Text.decimalBelow?_lt hnum, Text.decimalBelow?_lt hden⟩

/-- Two numbers below the bound are written as a clause in decimal. -/
theorem clauseText_repr {n m : Nat} (hn : n < UInt32.size) (hm : m < UInt32.size)
    (rest : List Char) :
    ClauseText n m (n.repr.toList ++ '/' :: (m.repr.toList ++ ']' :: rest)) rest :=
  ⟨n.repr, m.repr, _, _, Text.decimalBelow?_repr hn, Text.decimalBelow?_repr hm,
    .nothing, .nothing, .nothing⟩

namespace Reading

variable {n m : Nat} {c : Cursor} {rest : List Char}

/-- What a clause comes to depends on its two numbers alone. -/
theorem durationClause_of_clauseText (start : Position) (h : ClauseText n m c.rest rest) :
    ∃ d, d.rest = rest ∧ durationClause start c =
      match Duration.ofRatio n m with
      | .ok duration => .ok duration d
      | .error fault => .error ((Cause.invalidDuration n m fault).reportedAt start) d := by
  obtain ⟨c₁, c₂, c₃, d, hn, hslash, hm, hclose, hd⟩ := parts_of_clauseText h
  refine ⟨d, hd, ?_⟩
  simp only [durationClause, bind_apply, hn, hslash, hm, hclose]
  cases Duration.ofRatio n m with
  | ok duration => rfl
  | error fault => rfl

theorem ofRatio_of_durationClause {start : Position} {duration : Duration} {d : Cursor}
    (h : ClauseText n m c.rest rest) (hok : durationClause start c = .ok duration d) :
    d.rest = rest ∧ Duration.ofRatio n m = .ok duration := by
  obtain ⟨e, he, hread⟩ := durationClause_of_clauseText start h
  rw [hok] at hread
  cases hratio : Duration.ofRatio n m with
  | ok found =>
    rw [hratio] at hread
    obtain ⟨rfl, rfl⟩ := EStateM.Result.ok.inj hread
    exact ⟨he, rfl⟩
  | error fault =>
    rw [hratio] at hread
    simp at hread

theorem durationClause_of_ofRatio {duration : Duration} (start : Position)
    (h : ClauseText n m c.rest rest) (hok : Duration.ofRatio n m = .ok duration) :
    ∃ d, d.rest = rest ∧ durationClause start c = .ok duration d := by
  obtain ⟨d, hd, hread⟩ := durationClause_of_clauseText start h
  rw [hok] at hread
  exact ⟨d, hd, hread⟩

theorem clauseGives_iff {duration : Duration} :
    ClauseGives n m duration ↔
      n < UInt32.size ∧ m < UInt32.size ∧ Duration.ofRatio n m = .ok duration := by
  constructor
  · rintro ⟨start, c, d, htext, hread⟩
    obtain ⟨hn, hm⟩ := lt_of_clauseText htext
    exact ⟨hn, hm, (ofRatio_of_durationClause htext hread).2⟩
  · rintro ⟨hn, hm, hratio⟩
    have htext := clauseText_repr hn hm []
    obtain ⟨d, hd, hread⟩ :=
      durationClause_of_ofRatio (c := ⟨_, .start⟩) .start htext hratio
    exact ⟨.start, _, d, hd ▸ htext, hread⟩

/-- **Duration arithmetic is exact.** Any two 32-bit numbers make a clause. It is a duration exactly
if its denominator is not zero and it stays below 256 bars. The computation in 64-bit words does not
wrap, no byte loses a part of its value, and the two bytes together are the ratio in 256ths of a
bar, rounded down. So equal ratios are equal durations, a larger ratio is no shorter duration, and
every duration is written by some clause. -/
theorem durationClause_exact :
    (∀ {n m : Nat} (rest : List Char), n < UInt32.size → m < UInt32.size →
      ∃ text, ClauseText n m text rest) ∧
    (∀ {n m : Nat} {c : Cursor} {rest : List Char} (start : Position),
      ClauseText n m c.rest rest →
        ((∃ duration d, durationClause start c = .ok duration d) ↔ 0 < m ∧ n < 256 * m) ∧
        (256 * UInt64.ofNat n).toNat = 256 * n ∧
        Duration.ofWords (.ofNat n) (.ofNat m) = Duration.ofRatio n m ∧
        ∀ duration d, durationClause start c = .ok duration d →
          d.rest = rest ∧ Duration.ofWords (.ofNat n) (.ofNat m) = .ok duration ∧
          duration.bars.toNat = n / m ∧ duration.fraction.toNat = 256 * n / m % 256 ∧
          256 * duration.bars.toNat + duration.fraction.toNat = 256 * n / m) ∧
    (∀ {n m n' m' : Nat} {x : Duration}, ClauseGives n m x → n' < UInt32.size →
      m' < UInt32.size → 0 < m' → n * m' = n' * m → ClauseGives n' m' x) ∧
    (∀ {n m n' m' : Nat} {x y : Duration}, ClauseGives n m x → ClauseGives n' m' y →
      n * m' ≤ n' * m → x.parts ≤ y.parts) ∧
    ∀ x : Duration, ∃ n m, ClauseGives n m x := by
  refine ⟨?_, fun {n m c rest} start htext => ?_, ?_, ?_, fun x => ?_⟩
  · exact fun rest hn hm => ⟨_, clauseText_repr hn hm rest⟩
  · obtain ⟨hn, hm⟩ := lt_of_clauseText htext
    have hwords := Duration.ofWords_eq hn hm
    refine ⟨⟨?_, ?_⟩, Duration.toNat_scaled hn, hwords, ?_⟩
    · rintro ⟨duration, d, hread⟩
      obtain ⟨hdefined, hshort, -⟩ :=
        Duration.ofRatio_eq_ok.1 (ofRatio_of_durationClause htext hread).2
      exact ⟨Nat.pos_of_ne_zero hdefined, hshort⟩
    · rintro ⟨hdefined, hshort⟩
      obtain ⟨duration, hratio⟩ := Duration.exists_ofRatio hdefined hshort
      obtain ⟨d, -, hread⟩ := durationClause_of_ofRatio start htext hratio
      exact ⟨duration, d, hread⟩
    · intro duration d hread
      obtain ⟨hd, hratio⟩ := ofRatio_of_durationClause htext hread
      obtain ⟨hbars, hfraction⟩ := Duration.bars_toNat_of_ofRatio hratio
      exact ⟨hd, hwords.trans hratio, hbars, hfraction, Duration.parts_of_ofRatio hratio⟩
  · intro n m n' m' x hx hn' hm' hpos heq
    obtain ⟨-, -, hratio⟩ := clauseGives_iff.1 hx
    exact clauseGives_iff.2 ⟨hn', hm', Duration.ofRatio_congr hpos heq hratio⟩
  · intro n m n' m' x y hx hy hle
    obtain ⟨-, -, hratio⟩ := clauseGives_iff.1 hx
    obtain ⟨-, -, hratio'⟩ := clauseGives_iff.1 hy
    exact Duration.parts_le_of_ofRatio hle hratio hratio'
  · have hparts : x.parts < UInt32.size := Nat.lt_trans x.parts_lt (by decide)
    exact ⟨x.parts, 256, clauseGives_iff.2 ⟨hparts, by decide, Duration.ofRatio_parts x⟩⟩

/-- The clause `[3/2]` is one bar and a half, and so is the clause `[6/4]`. -/
theorem durationClause_three_halves :
    (∃ d, durationClause .start (.ofText "3/2]") = .ok ⟨1, 128⟩ d) ∧ ClauseGives 6 4 ⟨1, 128⟩ := by
  have htext : ClauseText 3 2 (Cursor.ofText "3/2]").rest [] :=
    ⟨"3", "2", _, _, by decide, by decide, .nothing, .nothing, .nothing⟩
  obtain ⟨haccepted, -, -, hvalue⟩ := durationClause_exact.2.1 .start htext
  obtain ⟨duration, d, hread⟩ := haccepted.2 ⟨by decide, by decide⟩
  obtain ⟨hd, -, hbars, hfraction, -⟩ := hvalue duration d hread
  obtain rfl : duration = ⟨1, 128⟩ := by
    obtain ⟨bars, fraction⟩ := duration
    congr 1
    · exact UInt8.toNat_inj.1 hbars
    · exact UInt8.toNat_inj.1 hfraction
  have hgives : ClauseGives 3 2 ⟨1, 128⟩ := ⟨.start, _, d, hd ▸ htext, hread⟩
  exact ⟨⟨d, hread⟩, durationClause_exact.2.2.1 hgives (by decide) (by decide) (by decide) rfl⟩

end Reading

end Songsheet
