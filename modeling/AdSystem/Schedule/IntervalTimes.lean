import AdSystem.Library.Fallible
import AdSystem.Schedule.AlarmUtil

/-! # Times that both readings agree on

The bounds of an interval are compared as strings with the current time and read as
numbers for the alarms. Only the length and the order of the strings are checked, so
the reading may fail, or may put a bound where the comparison does not see it.
-/
namespace AdSystem.Schedule
open Query
open Policy (Media utf16)
open Fallible
open MonotoneScale (Between Encloses)

section Reading
variable {now : ℕ} {time : JString} {hour minute second instant : ℤ}

/-- The string has three parts that are an hour, a minute and a second. -/
def Reads (time : JString) (hour minute second : ℤ) : Prop :=
  ∃ p₀ p₁ p₂ rest, split 58 (trim time) = p₀ :: p₁ :: p₂ :: rest ∧
    parseInt (trim p₀) = .ok hour ∧ parseInt (trim p₁) = .ok minute ∧ parseInt (trim p₂) = .ok second

/-- The second of the day that the alarm is set for. -/
def armedSecond (instant : ℤ) : ℕ := (instant / 1000 % 86400).toNat

theorem armedSecond_lt (instant : ℤ) : armedSecond instant < 86400 := by
  unfold armedSecond
  omega

theorem armedSecond_toMillis :
    armedSecond (toMillis now hour minute second) =
      ((3600 * hour + 60 * minute + second) % 86400).toNat := by
  have hday : (midnight now : ℤ) = 1000 * (86400 * (now / dayMillis : ℕ)) := by
    rw [midnight]
    generalize now / dayMillis = day
    unfold dayMillis
    omega
  rw [armedSecond, toMillis, hday, ← Int.mul_add, Int.mul_ediv_cancel_left _ (by decide), Int.mul_add_emod_self_left]

theorem timeInt_eq_ok {hms : List JString} {i : ℕ} {n : ℤ} :
    timeInt hms i = .ok n ↔ ∃ p, hms[i]? = some p ∧ parseInt (trim p) = .ok n := by
  unfold timeInt
  cases hms[i]? <;> simp

theorem convertAlarmUpTime_eq_ok :
    ConvertAlarmUpTime now time = .ok instant ↔
      ∃ hour minute second, Reads time hour minute second ∧ instant = toMillis now hour minute second := by
  simp only [ConvertAlarmUpTime, bind, Except.bind, pure, Except.pure]
  generalize hparts : split 58 (trim time) = hms
  constructor
  · intro h
    cases h0 : timeInt hms 0 with
    | error e => rw [h0] at h; cases h
    | ok hour =>
      cases h1 : timeInt hms 1 with
      | error e => rw [h0, h1] at h; cases h
      | ok minute =>
        cases h2 : timeInt hms 2 with
        | error e => rw [h0, h1, h2] at h; cases h
        | ok second =>
          rw [h0, h1, h2] at h
          cases h
          obtain ⟨p₀,hp₀,hh⟩ := timeInt_eq_ok.mp h0
          obtain ⟨p₁,hp₁,hm⟩ := timeInt_eq_ok.mp h1
          obtain ⟨p₂,hp₂,hs⟩ := timeInt_eq_ok.mp h2
          match hms, hp₀, hp₁, hp₂ with
          | _ :: _ :: _ :: rest, rfl, rfl, rfl =>
            exact ⟨hour,minute,second,⟨p₀,p₁,p₂,rest,hparts,hh,hm,hs⟩,rfl⟩
  · rintro ⟨hour,minute,second,⟨p₀,p₁,p₂,rest,hsplit,hh,hm,hs⟩,rfl⟩
    cases hparts.symm.trans hsplit
    have h0 : timeInt (p₀ :: p₁ :: p₂ :: rest) 0 = .ok hour := timeInt_eq_ok.mpr ⟨p₀,rfl,hh⟩
    have h1 : timeInt (p₀ :: p₁ :: p₂ :: rest) 1 = .ok minute := timeInt_eq_ok.mpr ⟨p₁,rfl,hm⟩
    have h2 : timeInt (p₀ :: p₁ :: p₂ :: rest) 2 = .ok second := timeInt_eq_ok.mpr ⟨p₂,rfl,hs⟩
    rw [h0, h1, h2]

def Numeric (time : JString) : Prop := ∃ hour minute second, Reads time hour minute second

theorem numeric_iff (now : ℕ) : Numeric time ↔ ∃ instant, ConvertAlarmUpTime now time = .ok instant := by
  simp only [convertAlarmUpTime_eq_ok, Numeric]
  constructor
  · rintro ⟨hour,minute,second,h⟩
    exact ⟨_,hour,minute,second,h,rfl⟩
  · rintro ⟨_,hour,minute,second,h,_⟩
    exact ⟨hour,minute,second,h⟩

end Reading

section Arming
variable {now : ℕ} {a : AlarmUtil} {m : Media} {time : JString} {i : JString × JString}

theorem setChangeTimeBroadcast_ok {isStart : Bool} :
    (∃ a', a.setChangeTimeBroadcast now time m isStart = .ok a') ↔ Numeric time := by
  rw [numeric_iff now]
  cases m <;> exact exists_map_ok

theorem setVoiceSwitchBroadcast_ok {isOn : Bool} :
    (∃ a', a.setVoiceSwitchBroadcast now time isOn = .ok a') ↔ Numeric time := by
  rw [numeric_iff now]
  exact exists_map_ok

theorem setRestartTimeBroadcast_ok : (∃ a', a.setRestartTimeBroadcast now time = .ok a') ↔ Numeric time := by
  rw [numeric_iff now]
  exact exists_map_ok

theorem armInterval_ok : (∃ a', a.armInterval now m i = .ok a') ↔ Numeric i.1 ∧ Numeric i.2 := by
  simp only [AlarmUtil.armInterval, exists_bind_ok, setChangeTimeBroadcast_ok, exists_and_right]

theorem foldlM_armInterval_ok {is : List (JString × JString)} :
    (∃ a', is.foldlM (fun a i => a.armInterval now m i) a = .ok a') ↔
      ∀ i ∈ is, Numeric i.1 ∧ Numeric i.2 := by
  apply exists_foldlM_ok
  intro a i
  exact armInterval_ok

/-- The alarms can be set when the process starts, at any time. -/
def Starts (q : Distinct) (settings : Settings) (db : FileListMgr) : Prop :=
  ∀ now a, ∃ a', initAlarmWhenStartUp q settings db now a = .ok a'

/-- A single string that cannot be read makes every start fail. -/
theorem starts_iff {q : Distinct} {settings : Settings} {db : FileListMgr} :
    Starts q settings db ↔ Numeric settings.restartTime ∧ Numeric settings.onTime ∧
      Numeric settings.offTime ∧ ∀ m, ∀ i ∈ db.intervals m, Numeric i.1 ∧ Numeric i.2 := by
  have hrows : ∀ m, (∀ i ∈ (db.getAllTimeInterval q m).rows, Numeric i.1 ∧ Numeric i.2) ↔
      ∀ i ∈ db.intervals m, Numeric i.1 ∧ Numeric i.2 :=
    fun m => forall_congr' fun i => imp_congr_left (q.mem _ _)
  have hmedia : (∀ m, ∀ i ∈ db.intervals m, Numeric i.1 ∧ Numeric i.2) ↔
      (∀ i ∈ db.intervals .video, Numeric i.1 ∧ Numeric i.2) ∧
        ∀ i ∈ db.intervals .image, Numeric i.1 ∧ Numeric i.2 :=
    ⟨fun h => ⟨h _,h _⟩,fun h m => by cases m; exacts [h.1,h.2]⟩
  simp only [Starts, initAlarmWhenStartUp, exists_bind_ok, foldlM_armInterval_ok, exists_and_right,
    setRestartTimeBroadcast_ok, setVoiceSwitchBroadcast_ok, FileListMgr.getAllVideoTimeInterval,
    FileListMgr.getAllImageTimeInterval, hrows, hmedia]
  exact ⟨fun h => h 0 .start,fun h _ _ => h⟩

end Arming

section Usable
variable (startInterval endInterval : JString)

/-- What an accepted pair of times is to be good for. -/
structure UsableByBoth : Prop where
  /-- The handler sets its alarms after its inserts. -/
  handled : ∀ storage m now db a fileNames, ∃ a',
    (receiveIntervalAdd storage m now db a startInterval endInterval fileNames).2 = .ok a'
  /-- Later starts read the rows stored. -/
  loaded : ∀ q settings storage m now db a fileNames, Starts q settings db →
    Starts q settings (receiveIntervalAdd storage m now db a startInterval endInterval fileNames).1
  /-- The comparison with the current time agrees with the times of the alarms. -/
  compared : ∀ now armedStart armedEnd, ConvertAlarmUpTime now startInterval = .ok armedStart →
    ConvertAlarmUpTime now endInterval = .ok armedEnd →
      (isTimeInInterval (getCurrentTime now) startInterval endInterval = true ↔
        armedSecond armedStart ≤ secondOfDay now ∧ secondOfDay now ≤ armedSecond armedEnd)

def namedSecond (hour minute second : ℤ) : ℕ := ((3600 * hour + 60 * minute + second) % 86400).toNat

/-- Both strings are numeric, and as strings they lie next to the seconds that they name, on the
outside; or they name an end before the start, and no current time lies between them. -/
def InPlace : Prop :=
  ∃ h m s h' m' s', Reads startInterval h m s ∧ Reads endInterval h' m' s' ∧
    if namedSecond h m s ≤ namedSecond h' m' s' then
      Encloses 86400 formatTime startInterval endInterval (namedSecond h m s) (namedSecond h' m' s')
    else ∀ t < 86400, ¬ Between formatTime startInterval endInterval t

variable {startInterval endInterval}

theorem namedSecond_lt (h m s : ℤ) : namedSecond h m s < 86400 := by
  unfold namedSecond
  omega

theorem reads_unique {time : JString} {h m s h' m' s' : ℤ} (hr : Reads time h m s) (hr' : Reads time h' m' s') :
    namedSecond h m s = namedSecond h' m' s' := by
  obtain ⟨p₀,p₁,p₂,rest,hp,hh,hm,hs⟩ := hr
  obtain ⟨p₀',p₁',p₂',rest',hp',hh',hm',hs'⟩ := hr'
  cases hp.symm.trans hp'
  cases hh.symm.trans hh'
  cases hm.symm.trans hm'
  cases hs.symm.trans hs'
  rfl

/-- The comparison agrees with the alarms at every time if and only if the strings are in place. -/
theorem compared_iff {h m s h' m' s' : ℤ} (hstart : Reads startInterval h m s)
    (hend : Reads endInterval h' m' s') :
    (∀ now armedStart armedEnd, ConvertAlarmUpTime now startInterval = .ok armedStart →
      ConvertAlarmUpTime now endInterval = .ok armedEnd →
        (isTimeInInterval (getCurrentTime now) startInterval endInterval = true ↔
          armedSecond armedStart ≤ secondOfDay now ∧ secondOfDay now ≤ armedSecond armedEnd)) ↔
      if namedSecond h m s ≤ namedSecond h' m' s' then
        Encloses 86400 formatTime startInterval endInterval (namedSecond h m s) (namedSecond h' m' s')
      else ∀ t < 86400, ¬ Between formatTime startInterval endInterval t := by
  rw [← MonotoneScale.between_iff_forall formatTime_ascending (namedSecond_lt h m s) (namedSecond_lt h' m' s')]
  constructor
  · intro hall t ht
    obtain ⟨now,rfl⟩ := exists_secondOfDay ht
    have hnow := hall now _ _ (convertAlarmUpTime_eq_ok.mpr ⟨h,m,s,hstart,rfl⟩)
      (convertAlarmUpTime_eq_ok.mpr ⟨h',m',s',hend,rfl⟩)
    rw [isTimeInInterval_iff, armedSecond_toMillis, armedSecond_toMillis] at hnow
    exact hnow
  · intro hall now _ _ hs he
    obtain ⟨h₁,m₁,s₁,hr,rfl⟩ := convertAlarmUpTime_eq_ok.mp hs
    obtain ⟨h₁',m₁',s₁',hr',rfl⟩ := convertAlarmUpTime_eq_ok.mp he
    rw [isTimeInInterval_iff, armedSecond_toMillis, armedSecond_toMillis]
    have hnow := hall (secondOfDay now) (secondOfDay_lt now)
    rw [reads_unique hstart hr, reads_unique hend hr'] at hnow
    exact hnow

/-- Accepted times are usable by both readings if and only if they are in place. -/
theorem usableByBoth_iff (h : accepted startInterval endInterval = true) :
    UsableByBoth startInterval endInterval ↔ InPlace startInterval endInterval := by
  constructor
  · intro hu
    have harm := hu.handled ⟨fun _ => [],fun _ _ => []⟩ .video 0 .created .start []
    rw [receiveIntervalAdd, if_pos h] at harm
    obtain ⟨⟨h,m,s,hstart⟩,h',m',s',hend⟩ := armInterval_ok.mp harm
    exact ⟨h,m,s,h',m',s',hstart,hend,(compared_iff hstart hend).mp hu.compared⟩
  · rintro ⟨hr,m,s,hr',m',s',hstart,hend,hplace⟩
    have hnumeric : Numeric startInterval ∧ Numeric endInterval :=
      ⟨⟨hr,m,s,hstart⟩,hr',m',s',hend⟩
    refine ⟨fun storage m now db a fileNames => ?_,fun q settings storage m now db a fileNames hs => ?_,
      (compared_iff hstart hend).mpr hplace⟩
    · rw [receiveIntervalAdd, if_pos h]
      exact armInterval_ok.mpr hnumeric
    · rw [receiveIntervalAdd, if_pos h]
      obtain ⟨hrestart,hon,hoff,hstored⟩ := starts_iff.mp hs
      refine starts_iff.mpr ⟨hrestart,hon,hoff,fun n i hi => ?_⟩
      rcases FileListMgr.mem_intervals_insertInterval storage m db hi with hold | rfl
      · exact hstored n i hold
      · exact hnumeric

end Usable

section WellFormed
variable {n t t' now : ℕ}

theorem trim_eq_self {s : JString} (h : ∀ c ∈ s, 32 < c) : trim s = s := by
  have hdrop : ∀ l : JString, (∀ c ∈ l, 32 < c) → l.dropWhile isBlank = l := by
    intro l hl
    cases l with
    | nil => rfl
    | cons c cs =>
      apply List.dropWhile_cons_of_neg
      have hc := hl c List.mem_cons_self
      simp only [isBlank, decide_eq_true_eq]
      omega
  rw [trim, hdrop s h, hdrop s.reverse fun c hc => h c (List.mem_reverse.mp hc), List.reverse_reverse]

theorem mem_twoDigits {c : ℕ} (hn : n < 100) (h : c ∈ twoDigits n) : 48 ≤ c ∧ c < 58 := by
  simp only [twoDigits, List.mem_cons, List.not_mem_nil, or_false] at h
  omega

theorem parseInt_twoDigits (hn : n < 100) : parseInt (trim (twoDigits n)) = .ok n := by
  have hdigit : ∀ d < 10, digit (48 + d) = some d := by decide
  rw [trim_eq_self fun c hc => by have := mem_twoDigits hn hc; omega, twoDigits]
  unfold parseInt
  split
  · rename_i heq
    injection heq
    omega
  · rename_i heq
    injection heq
    omega
  · have hvalue : appendDigits 0 [48 + n / 10,48 + n % 10] = some n := by
      simp only [appendDigits, hdigit (n / 10) (by omega), hdigit (n % 10) (by omega), Option.bind_some,
        Option.some.injEq]
      omega
    simp only [signedInt, hvalue]
    rw [if_pos (by omega), one_mul]

theorem split_formatTime (ht : t < 86400) :
    split 58 (trim (formatTime t)) = [twoDigits (t / 3600),twoDigits (t / 60 % 60),twoDigits (t % 60)] := by
  have hsep : ∀ n < 100, 58 ∉ twoDigits n := by
    intro n hn h
    have := mem_twoDigits hn h
    omega
  have hblank : ∀ c ∈ formatTime t, 32 < c := by
    intro c hc
    simp only [formatTime, List.mem_append, List.mem_cons] at hc
    rcases hc with hc | rfl | hc | rfl | hc
    · have := mem_twoDigits (by omega) hc
      omega
    · omega
    · have := mem_twoDigits (by omega) hc
      omega
    · omega
    · have := mem_twoDigits (by omega) hc
      omega
  have hparts : (formatTime t).splitOn 58 =
      [twoDigits (t / 3600),twoDigits (t / 60 % 60),twoDigits (t % 60)] := by
    rw [formatTime, List.splitOn_append_cons_self_of_not_mem (hsep _ (by omega)),
      List.splitOn_append_cons_self_of_not_mem (hsep _ (by omega)), List.splitOn_eq_singleton (hsep _ (by omega))]
  rw [trim_eq_self hblank, split, hparts, if_pos (by simp [formatTime])]
  rfl

theorem reads_formatTime (ht : t < 86400) :
    Reads (formatTime t) (t / 3600 : ℕ) (t / 60 % 60 : ℕ) (t % 60 : ℕ) :=
  ⟨_,_,_,_,split_formatTime ht,parseInt_twoDigits (by omega),parseInt_twoDigits (by omega),
    parseInt_twoDigits (by omega)⟩

theorem convertAlarmUpTime_formatTime (ht : t < 86400) :
    ConvertAlarmUpTime now (formatTime t) = .ok (midnight now + 1000 * t) := by
  refine convertAlarmUpTime_eq_ok.mpr ⟨_,_,_,reads_formatTime ht,?_⟩
  rw [toMillis]
  omega

theorem inPlace_formatTime (h : t ≤ t') (ht' : t' < 86400) : InPlace (formatTime t) (formatTime t') := by
  have hnamed : ∀ t < 86400, namedSecond (t / 3600 : ℕ) (t / 60 % 60 : ℕ) (t % 60 : ℕ) = t := by
    intro t ht
    unfold namedSecond
    omega
  refine ⟨_,_,_,_,_,_,reads_formatTime (by omega),reads_formatTime ht',?_⟩
  rw [hnamed t (by omega), hnamed t' ht', if_pos h]
  exact ⟨le_rfl,le_rfl,fun i hi => formatTime_ascending i t (by omega) (by omega),
    fun hn => formatTime_ascending t' (t' + 1) (by omega) hn⟩

end WellFormed

theorem usableByBoth_morning : UsableByBoth (utf16 "09:00:00") (utf16 "10:30:00") := by
  have hplace : InPlace (utf16 "09:00:00") (utf16 "10:30:00") :=
    inPlace_formatTime (by decide : 32400 ≤ 37800) (by decide)
  exact (usableByBoth_iff (by decide)).mpr hplace

/-- Hyphens pass the check; then the alarms cannot be set, and no later start succeeds. -/
theorem not_usableByBoth_hyphens :
    ¬ ∀ startInterval endInterval : JString, accepted startInterval endInterval = true →
      UsableByBoth startInterval endInterval := by
  intro h
  have hu := h (utf16 "09-00-00") (utf16 "10-30-00") (by decide)
  obtain ⟨a',ha'⟩ := hu.handled ⟨fun _ => [],fun _ _ => []⟩ .video 0 .created .start []
  have hthrows : (receiveIntervalAdd ⟨fun _ => [],fun _ _ => []⟩ .video 0 .created .start
      (utf16 "09-00-00") (utf16 "10-30-00") []).2 = .error .numberFormat := rfl
  cases ha'.symm.trans hthrows

end AdSystem.Schedule
