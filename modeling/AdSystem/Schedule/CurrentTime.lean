import AdSystem.Library.MonotoneScale
import AdSystem.Schedule.FileListMgr

/-! # The time of day, as a number and as a string

The clock counts milliseconds from a midnight; every day has as many of them. The
times of day are written with two digits for each part, so that a later time is a
greater string.
-/
namespace AdSystem.Schedule
open Policy (compareUnits_neg compareUnits_swap)

def dayMillis : ℕ := 86400000

def midnight (now : ℕ) : ℕ := now / dayMillis * dayMillis

def secondOfDay (now : ℕ) : ℕ := now / 1000 % 86400

/-- `%02d` of a number below 100. -/
def twoDigits (n : ℕ) : JString := [48 + n / 10,48 + n % 10]

/-- The second of the day as `HH:MM:SS`. -/
def formatTime (t : ℕ) : JString :=
  twoDigits (t / 3600) ++ 58 :: (twoDigits (t / 60 % 60) ++ 58 :: twoDigits (t % 60))

def getCurrentTime (now : ℕ) : JString := formatTime (secondOfDay now)

theorem secondOfDay_lt (now : ℕ) : secondOfDay now < 86400 := Nat.mod_lt _ (by decide)

theorem exists_secondOfDay {t : ℕ} (h : t < 86400) : ∃ now, secondOfDay now = t :=
  ⟨t * 1000,by rw [secondOfDay, Nat.mul_div_cancel _ (by decide), Nat.mod_eq_of_lt h]⟩

section Order
variable {a b : ℕ} {x y : JString}

theorem isTimeInInterval_iff {time timeStart timeEnd : JString} :
    isTimeInInterval time timeStart timeEnd = true ↔ timeStart ≤ time ∧ time ≤ timeEnd := by
  have hstart := compareUnits_neg time timeStart
  have hend := compareUnits_neg timeEnd time
  rw [compareUnits_swap timeEnd time] at hend
  rw [← not_lt, ← not_lt, ← hstart, ← hend, isTimeInInterval, decide_eq_true_eq]
  omega

theorem twoDigits_append_lt :
    twoDigits a ++ x < twoDigits b ++ y ↔ a < b ∨ a = b ∧ x < y := by
  simp only [twoDigits, List.cons_append, List.nil_append, List.cons_lt_cons_iff]
  constructor
  · rintro (h | ⟨h,h' | ⟨h',h''⟩⟩)
    · exact Or.inl (by omega)
    · exact Or.inl (by omega)
    · exact Or.inr ⟨by omega,h''⟩
  · rintro (h | ⟨rfl,h⟩)
    · omega
    · exact Or.inr ⟨rfl,Or.inr ⟨rfl,h⟩⟩

theorem twoDigits_lt : twoDigits a < twoDigits b ↔ a < b := by
  have h := twoDigits_append_lt (a := a) (b := b) (x := []) (y := [])
  simpa using h

/-- The marks of the seconds of a day on the scale of the strings. -/
theorem formatTime_ascending : MonotoneScale.Ascending 86400 formatTime := by
  intro i j hij hj
  rw [formatTime, formatTime, twoDigits_append_lt, List.cons_lt_cons_iff, twoDigits_append_lt,
    List.cons_lt_cons_iff, twoDigits_lt]
  omega

end Order
end AdSystem.Schedule
