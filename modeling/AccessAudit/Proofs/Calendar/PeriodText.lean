import AccessAudit.Calendar.Period
import AccessAudit.Proofs.Calendar.TextOrder
import AccessAudit.Proofs.Decimal.Numerals
import Mathlib.Data.Rat.Floor

/-!
# Periods are read back

A period is rounded to whole seconds, and these are written as a number of days and a clock of eight characters.
The clock is the end of the text, and what stands before it tells the days; the parts of the clock are below 24,
60 and 60.  So the text tells the whole seconds, and only what is no period is blank.
-/

namespace AccessAudit

/-! ### Rounding to whole seconds -/

theorem Decimal.roundUp_le
    (x : Rat) :
    (Decimal.roundUp x : Rat) - 1 / 2 ≤ x := by
  have hfloor := Rat.floor_le (x + 1 / 2)
  unfold Decimal.roundUp
  linarith

theorem Decimal.lt_roundUp
    (x : Rat) :
    x < Decimal.roundUp x + 1 / 2 := by
  have hfloor := Rat.lt_floor_add_one (x + 1 / 2)
  unfold Decimal.roundUp
  push_cast at hfloor
  linarith

theorem Decimal.roundUp_nonneg
    {x : Rat}
    (h : 0 ≤ x) :
    0 ≤ Decimal.roundUp x := by
  rw [Decimal.roundUp, Rat.le_floor_iff]
  push_cast
  linarith

namespace Double

/-- A number without an exact value is NaN or one of the infinities. -/
theorem toRat?_eq_none_iff
    {x : Double} :
    x.toRat? = none ↔ x = .nan ∨ ∃ negative, x = infinity negative := by
  cases x with
  | nan => exact iff_of_true rfl (.inl rfl)
  | signed negative rank hrank =>
      by_cases hinfinite : rank = infiniteRank
      · subst hinfinite
        refine iff_of_true ?_ (.inr ⟨negative, rfl⟩)
        rw [toRat?, if_pos rfl]
      · refine iff_of_false ?_ ?_
        · rw [toRat?, if_neg hinfinite]
          exact nofun
        · rintro (h | ⟨negative', h⟩)
          · cases h
          · exact hinfinite (signed.inj h).2

end Double

namespace Calendar

/-- The whole seconds that an exact number of seconds is rounded to: the nearest number, a half going up, and
none beyond 64 bits. -/
def RoundsTo (seconds : Rat) (total : Nat) : Prop :=
  ∃ nearest : Nat,
    (nearest : Rat) - 1 / 2 ≤ seconds ∧ seconds < nearest + 1 / 2 ∧ total = min nearest (2 ^ 64 - 1)

theorem RoundsTo.unique
    {seconds : Rat}
    {total total' : Nat}
    (h : RoundsTo seconds total)
    (h' : RoundsTo seconds total') :
    total = total' := by
  obtain ⟨nearest, hle, hlt, rfl⟩ := h
  obtain ⟨nearest', hle', hlt', rfl⟩ := h'
  have hbelow : (nearest : Rat) < nearest' + 1 := by linarith
  have habove : (nearest' : Rat) < nearest + 1 := by linarith
  have heq : nearest = nearest' :=
    Nat.le_antisymm (Nat.lt_succ_iff.mp (by exact_mod_cast hbelow))
      (Nat.lt_succ_iff.mp (by exact_mod_cast habove))
  rw [heq]

/-- A period that is finite and not negative is rounded. -/
theorem exists_wholeSeconds
    {x : Double}
    {seconds : Rat}
    (hx : x.toRat? = some seconds)
    (hseconds : 0 ≤ seconds) :
    ∃ total, RoundsTo seconds total ∧ wholeSeconds? x = some total := by
  have hcast : ((Decimal.roundUp seconds).toNat : Rat) = Decimal.roundUp seconds := by
    rw [← Int.cast_natCast, Int.toNat_of_nonneg (Decimal.roundUp_nonneg hseconds)]
  refine ⟨min (Decimal.roundUp seconds).toNat periodLimit,
    ⟨(Decimal.roundUp seconds).toNat, ?_, ?_, rfl⟩, ?_⟩
  · rw [hcast]
    exact Decimal.roundUp_le seconds
  · rw [hcast]
    exact Decimal.lt_roundUp seconds
  · rw [wholeSeconds?, hx]
    exact if_pos hseconds

theorem wholeSeconds?_eq_none_iff
    {x : Double} :
    wholeSeconds? x = none ↔ x.toRat? = none ∨ ∃ seconds, x.toRat? = some seconds ∧ seconds < 0 := by
  unfold wholeSeconds?
  cases x.toRat? with
  | none => simp
  | some seconds => simp

/-! ### The parts of a period -/

/-- Two decimal digits. -/
def twoDigits (n : Nat) : List Char :=
  [Nat.digitChar (n / 10), Nat.digitChar (n % 10)]

/-- How a number of days is told before a clock. -/
def daysChars : Nat → List Char
  | 0 => []
  | 1 => "1 day ".toList
  | days => Decimal.digits days ++ " days ".toList

/-- A number of seconds in days and the parts of a clock. -/
structure IsSplit (total days hours minutes seconds : Nat) : Prop where
  hours_lt : hours < 24
  minutes_lt : minutes < 60
  seconds_lt : seconds < 60
  total_eq : 86400 * days + 3600 * hours + 60 * minutes + seconds = total

theorem padded_two
    {n : Nat}
    (hn : n < 100) :
    Decimal.padded 2 n = twoDigits n := by
  have hone : Decimal.padded 1 (n / 10) = [Nat.digitChar (n / 10)] := by
    rw [Decimal.padded, Decimal.digits, Nat.toDigits_of_lt_base (by omega)]
    rfl
  rw [Decimal.padded_succ Nat.one_pos, hone]
  rfl

theorem periodOfSeconds_eq
    (total : Nat) :
    periodOfSeconds total = daysChars (total / 86400) ++ clockText (total % 86400) := by
  unfold periodOfSeconds daysChars
  dsimp only
  split <;> simp [*]

/-- The text of a number of seconds shows its parts. -/
theorem exists_isSplit
    (total : Nat) :
    ∃ days hours minutes seconds, IsSplit total days hours minutes seconds ∧
      periodOfSeconds total =
        daysChars days ++ (twoDigits hours ++ ':' :: twoDigits minutes ++ ':' :: twoDigits seconds) := by
  refine ⟨total / 86400, total % 86400 / 3600, total % 86400 % 3600 / 60, total % 86400 % 60,
    ⟨?_, ?_, ?_, ?_⟩, ?_⟩
  · omega
  · omega
  · omega
  · omega
  · rw [periodOfSeconds_eq, clockText, padded_two (by omega), padded_two (by omega), padded_two (by omega)]

/-! ### The text tells the seconds -/

theorem length_clockText
    {rest : Nat}
    (h : rest < 86400) :
    (clockText rest).length = 8 := by
  simp only [clockText, List.length_append, List.length_cons,
    Decimal.length_padded Nat.two_pos (show rest / 3600 < 10 ^ 2 by omega),
    Decimal.length_padded Nat.two_pos (show rest % 3600 / 60 < 10 ^ 2 by omega),
    Decimal.length_padded Nat.two_pos (show rest % 60 < 10 ^ 2 by omega)]

theorem clockText_inj
    {rest rest' : Nat}
    (hrest : rest < 86400)
    (hrest' : rest' < 86400)
    (h : clockText rest = clockText rest') :
    rest = rest' := by
  have htwo : ∀ {n : Nat}, n < 10 ^ 2 → (Decimal.padded 2 n).length = 2 :=
    fun hn => Decimal.length_padded Nat.two_pos hn
  unfold clockText at h
  rw [List.append_assoc, List.append_assoc] at h
  obtain ⟨hhours, h⟩ := List.append_inj h ((htwo (by omega)).trans (htwo (by omega)).symm)
  obtain ⟨hminutes, h⟩ :=
    List.append_inj (List.cons.inj h).2 ((htwo (by omega)).trans (htwo (by omega)).symm)
  have hhours := Decimal.padded_injective 2 hhours
  have hminutes := Decimal.padded_injective 2 hminutes
  have hseconds := Decimal.padded_injective 2 (List.cons.inj h).2
  omega

/-- The days that are told are those of the text: one day has no plural, and digits are read back. -/
theorem daysChars_injective : Function.Injective daysChars := by
  have hplural : ∀ days, daysChars (days + 2) = Decimal.digits (days + 2) ++ " days ".toList :=
    fun _ => rfl
  have hnil : ∀ days, daysChars (days + 1) ≠ [] := by
    intro days
    cases days with
    | zero => decide
    | succ days =>
        rw [hplural]
        exact List.append_ne_nil_of_right_ne_nil _ (by decide)
  -- before the last blank there is an s or none
  have hsingular : ∀ days, daysChars (days + 2) ≠ daysChars 1 := by
    intro days h
    have hone : daysChars 1 = ['1'] ++ " day ".toList := rfl
    have hmany : daysChars (days + 2) = (Decimal.digits (days + 2) ++ [' ']) ++ "days ".toList := by
      rw [hplural, List.append_assoc]
      rfl
    rw [hone, hmany] at h
    exact absurd (List.append_inj' h rfl).2 (by decide)
  intro days days' h
  match days, days' with
  | 0, 0 => rfl
  | 0, days' + 1 => exact absurd h.symm (hnil days')
  | days + 1, 0 => exact absurd h (hnil days)
  | 1, 1 => rfl
  | 1, days' + 2 => exact absurd h.symm (hsingular days')
  | days + 2, 1 => exact absurd h (hsingular days)
  | days + 2, days' + 2 =>
      rw [hplural, hplural] at h
      exact Decimal.digits_injective (List.append_cancel_right h)

theorem periodOfSeconds_injective : Function.Injective periodOfSeconds := by
  intro total total' h
  have hclock : ∀ n, n % 86400 < 86400 := fun n => Nat.mod_lt n (Nat.succ_pos 86399)
  rw [periodOfSeconds_eq, periodOfSeconds_eq] at h
  obtain ⟨hdays, hrest⟩ :=
    List.append_inj' h ((length_clockText (hclock total)).trans (length_clockText (hclock total')).symm)
  have hdays := daysChars_injective hdays
  have hrest := clockText_inj (hclock total) (hclock total') hrest
  omega

theorem periodOfSeconds_ne_nil
    (total : Nat) :
    periodOfSeconds total ≠ [] := by
  refine List.ne_nil_of_length_pos ?_
  rw [periodOfSeconds_eq, List.length_append,
    length_clockText (Nat.mod_lt total (Nat.succ_pos 86399))]
  omega

theorem periodText_of_wholeSeconds
    {x : Double}
    {total : Nat}
    (h : wholeSeconds? x = some total) :
    periodText (some x) = String.ofList (periodOfSeconds total) := by
  rw [periodText, Option.bind_some, h]

theorem periodText_eq_empty_iff
    {period : Option Double} :
    periodText period = "" ↔ period.bind wholeSeconds? = none := by
  unfold periodText
  cases period.bind wholeSeconds? with
  | none => exact iff_of_true rfl rfl
  | some total =>
      refine iff_of_false (fun h => periodOfSeconds_ne_nil total ?_) nofun
      exact String.ofList_injective (h : String.ofList (periodOfSeconds total) = String.ofList [])

/-- A period that is finite and not negative is shown as the days, hours, minutes and seconds of the whole seconds
that it rounds to, two such periods have one text if and only if they round to one number, and blank is what is
absent, infinite, not a number or negative. -/
theorem periods_read_back :
    (∀ (x : Double) (exact : Rat), x.toRat? = some exact → 0 ≤ exact →
      ∃ total, RoundsTo exact total ∧
        ∃ days hours minutes seconds, IsSplit total days hours minutes seconds ∧
          (periodText (some x)).toList =
            daysChars days ++
              (twoDigits hours ++ ':' :: twoDigits minutes ++ ':' :: twoDigits seconds)) ∧
    (∀ (x y : Double) (exact exact' : Rat) (total total' : Nat),
      x.toRat? = some exact → 0 ≤ exact → RoundsTo exact total →
      y.toRat? = some exact' → 0 ≤ exact' → RoundsTo exact' total' →
        (periodText (some x) = periodText (some y) ↔ total = total')) ∧
    (∀ period : Option Double,
      periodText period = "" ↔
        period = none ∨ period = some .nan ∨ (∃ negative, period = some (.infinity negative)) ∨
        ∃ x exact, period = some x ∧ x.toRat? = some exact ∧ exact < 0) := by
  refine ⟨fun x exact hx hexact => ?_, fun x y exact exact' total total' hx hexact htotal hy hexact' htotal' => ?_,
    fun period => ?_⟩
  · obtain ⟨total, hrounds, hwhole⟩ := exists_wholeSeconds hx hexact
    obtain ⟨days, hours, minutes, seconds, hsplit, htext⟩ := exists_isSplit total
    refine ⟨total, hrounds, days, hours, minutes, seconds, hsplit, ?_⟩
    rw [periodText_of_wholeSeconds hwhole, String.toList_ofList, htext]
  · obtain ⟨n, hrounds, hwhole⟩ := exists_wholeSeconds hx hexact
    obtain ⟨n', hrounds', hwhole'⟩ := exists_wholeSeconds hy hexact'
    rw [periodText_of_wholeSeconds hwhole, periodText_of_wholeSeconds hwhole', htotal.unique hrounds,
      htotal'.unique hrounds', String.ofList_inj]
    exact periodOfSeconds_injective.eq_iff
  · rw [periodText_eq_empty_iff]
    cases period with
    | none => simp
    | some x =>
        rw [Option.bind_some, wholeSeconds?_eq_none_iff, Double.toRat?_eq_none_iff]
        simp [or_assoc]

/-- Half a second before two days are over. -/
def lastHalfSecond : Double :=
  .ofRat (345599 / 2)

/-- The half second carries over seconds, minutes, hours and the day. -/
theorem lastHalfSecond_carries :
    lastHalfSecond.toRat? = some (345599 / 2) ∧ RoundsTo (345599 / 2) 172800 ∧
    (∃ total, RoundsTo (345599 / 2) total ∧
      ∃ days hours minutes seconds, IsSplit total days hours minutes seconds ∧
        (periodText (some lastHalfSecond)).toList =
          daysChars days ++
            (twoDigits hours ++ ':' :: twoDigits minutes ++ ':' :: twoDigits seconds)) ∧
    periodText (some lastHalfSecond) = periodText (some (.ofInt 172800)) ∧
    periodText (some (.ofInt 172800)) = "2 days 00:00:00" := by
  have hlast : lastHalfSecond.toRat? = some (345599 / 2) := by decide +kernel
  have hwhole : (Double.ofInt 172800).toRat? = some 172800 := by decide +kernel
  have hrounds : RoundsTo (345599 / 2) 172800 := ⟨172800, by norm_num, by norm_num, by norm_num⟩
  have hwhole_rounds : RoundsTo 172800 172800 := ⟨172800, by norm_num, by norm_num, by norm_num⟩
  exact ⟨hlast, hrounds, periods_read_back.1 _ _ hlast (by norm_num),
    (periods_read_back.2.1 _ _ _ _ _ _ hlast (by norm_num) hrounds hwhole (by norm_num) hwhole_rounds).mpr rfl,
    by decide +kernel⟩

end Calendar
end AccessAudit
