import Mathlib.Data.List.TakeWhile
import AdSystem.Schedule.AlarmUtil
import AdSystem.Sensor.NativeReads

/-! # The readings in the status URL

`generateHttpGetUrl` appends the readings to a query, each with its key before it. Split at
the separators the query has an empty piece, and a piece in which the key of the moving
direction runs into its number.
-/
namespace AdSystem.Sensor
open Schedule (JString parseInt digit appendDigits signedInt)
open Policy (utf16)

section Decimal

def decimalNat (n : ℕ) : JString := if n < 10 then [48 + n] else decimalNat (n / 10) ++ [48 + n % 10]
termination_by n
decreasing_by omega

/-- What Java concatenates for an `int`. -/
def decimal (n : ℤ) : JString := if n < 0 then 45 :: decimalNat n.natAbs else decimalNat n.natAbs

theorem mem_decimalNat {n c : ℕ} (h : c ∈ decimalNat n) : 48 ≤ c ∧ c < 58 := by
  fun_induction decimalNat n with
  | case1 n hn =>
    rw [List.mem_singleton] at h
    omega
  | case2 n hn ih =>
    rcases List.mem_append.mp h with h | h
    · exact ih h
    · rw [List.mem_singleton] at h
      omega

theorem decimalNat_ne_nil (n : ℕ) : decimalNat n ≠ [] := by
  rw [decimalNat]
  split_ifs with hn
  · exact List.cons_ne_nil _ _
  · exact List.append_ne_nil_of_right_ne_nil _ (List.cons_ne_nil _ _)

theorem mem_decimal {n : ℤ} {c : ℕ} (h : c ∈ decimal n) : c = 45 ∨ 48 ≤ c ∧ c < 58 := by
  rw [decimal] at h
  split_ifs at h
  · exact (List.mem_cons.mp h).imp_right mem_decimalNat
  · exact Or.inr (mem_decimalNat h)

theorem not_mem_decimal {n : ℤ} {c : ℕ} (h : c ≠ 45 ∧ (c < 48 ∨ 58 ≤ c)) : c ∉ decimal n := by
  intro hmem
  have := mem_decimal hmem
  omega

theorem appendDigits_append_singleton (a : ℕ) (s : JString) (c : ℕ) :
    appendDigits a (s ++ [c]) = (appendDigits a s).bind fun n => (digit c).map (10 * n + ·) := by
  induction s generalizing a with
  | nil =>
    simp only [List.nil_append, appendDigits]
    cases digit c <;> rfl
  | cons b s ih =>
    simp only [List.cons_append, appendDigits]
    cases digit b with
    | none => rfl
    | some d => exact ih _

/-- The digits are read as the number that they were written for. -/
theorem appendDigits_decimalNat (n : ℕ) : appendDigits 0 (decimalNat n) = some n := by
  have hdigit : ∀ d < 10, digit (48 + d) = some d := by decide
  fun_induction decimalNat n with
  | case1 n hn =>
    rw [appendDigits, hdigit n hn, Option.bind_some, Nat.mul_zero, Nat.zero_add]
    rfl
  | case2 n hn ih =>
    rw [appendDigits_append_singleton, ih, hdigit (n % 10) (Nat.mod_lt n (by decide)), Option.bind_some,
      Option.map_some, Nat.div_add_mod]

theorem signedInt_decimalNat {sign : ℤ} {n : ℕ} (h : -2 ^ 31 ≤ sign * n ∧ sign * n < 2 ^ 31) :
    signedInt sign (decimalNat n) = .ok (sign * n) := by
  have hvalue := appendDigits_decimalNat n
  obtain ⟨c,s,hs⟩ := List.exists_cons_of_ne_nil (decimalNat_ne_nil n)
  rw [hs] at hvalue ⊢
  simp only [signedInt, hvalue]
  exact if_pos h

/-- Every `int` is read as it was written. -/
theorem parseInt_decimal {n : ℤ} (h : -2 ^ 31 ≤ n ∧ n < 2 ^ 31) : parseInt (decimal n) = .ok n := by
  rw [decimal]
  split_ifs with hneg
  · rw [parseInt, signedInt_decimalNat (by omega)]
    congr 1
    omega
  · have hn : signedInt 1 (decimalNat n.natAbs) = .ok n := by
      rw [signedInt_decimalNat (by omega)]
      congr 1
      omega
    obtain ⟨c,s,hs⟩ := List.exists_cons_of_ne_nil (decimalNat_ne_nil n.natAbs)
    have hc := mem_decimalNat (hs ▸ List.mem_cons_self : c ∈ decimalNat n.natAbs)
    rw [hs] at hn ⊢
    unfold parseInt
    split
    · rename_i heq
      injection heq
      omega
    · rename_i heq
      injection heq
      omega
    · exact hn

end Decimal

section GenerateHttpGetUrl

def generateHttpGetUrl (isRepair moverDir battery doorOpen hasPerson CFloor CSignal : ℤ) : JString :=
  let baseUrl := utf16 "http://117.158.178.198:8010/LNG-LOCAL-WEB/inshn/SignalAdd.do?"
  let sb := utf16 "Device_Id=10000000000000000001"
  let sb := sb ++ (utf16 "&isRepair=" ++ decimal isRepair ++ utf16 "&")
  let sb := sb ++ (utf16 "&moveDirection" ++ decimal moverDir)
  let sb := sb ++ (utf16 "&battery=" ++ decimal battery)
  let sb := sb ++ (utf16 "&isDoorOpen=" ++ decimal doorOpen)
  let sb := sb ++ (utf16 "&hasPerson=" ++ decimal hasPerson)
  let sb := sb ++ (utf16 "&CFloor=" ++ decimal CFloor)
  let sb := sb ++ (utf16 "&CSignal=" ++ decimal CSignal)
  baseUrl ++ sb

/-- Five zeros in place of `NULL`. -/
def getSensorData : NativeResult → Option (List ℤ)
  | .outOfBounds => none
  | .null => some (List.replicate 5 0)
  | .array values => some values

/-- The URL that the timer requests; nothing when an index is out of bounds. -/
def statusUrl (mSensorData : List ℤ) : Option JString := do
  let isRepair ← mSensorData[4]?
  let moverDir ← mSensorData[1]?
  let doorOpen ← mSensorData[2]?
  let hasPerson ← mSensorData[3]?
  let CFloor ← mSensorData[0]?
  return generateHttpGetUrl isRepair moverDir 80 doorOpen hasPerson CFloor (-89)

theorem statusUrl_isSome {mSensorData : List ℤ} :
    (statusUrl mSensorData).isSome ↔ 5 ≤ mSensorData.length := by
  constructor
  · intro h
    obtain ⟨url,hurl⟩ := Option.isSome_iff_exists.mp h
    simp only [statusUrl, bind, Option.bind_eq_some_iff] at hurl
    obtain ⟨isRepair,hindex,_⟩ := hurl
    exact (List.getElem?_eq_some_iff.mp hindex).1
  · intro h
    simp only [statusUrl, List.getElem?_eq_getElem (show 4 < mSensorData.length by omega),
      List.getElem?_eq_getElem (show 1 < mSensorData.length by omega),
      List.getElem?_eq_getElem (show 2 < mSensorData.length by omega),
      List.getElem?_eq_getElem (show 3 < mSensorData.length by omega),
      List.getElem?_eq_getElem (show 0 < mSensorData.length by omega)]
    rfl

/-- A URL is requested for every reading. -/
theorem statusUrl_sensorRead (charSigned : Bool) (r : ReadResult 6) :
    ∃ mSensorData, getSensorData (sensorRead charSigned r) = some mSensorData ∧
      (statusUrl mSensorData).isSome := by
  refine ⟨_,congrArg getSensorData sensorRead_eq,statusUrl_isSome.mpr ?_⟩
  rw [List.length_map, List.length_take, into_sensor_length]
  decide

end GenerateHttpGetUrl

section Reading

/-- The pieces of the query part. -/
def pieces (url : JString) : List JString := (url.dropWhile fun c => c ≠ 63).tail.splitOn 38

/-- A piece split at its first `=`, if there is one. -/
def keyValue (piece : JString) : JString × Option JString :=
  (piece.takeWhile fun c => c ≠ 61,(piece.dropWhile fun c => c ≠ 61).tail?)

/-- The URL has a piece for the key with this number. -/
def Carries (url key : JString) (n : ℤ) : Prop :=
  ∃ piece ∈ pieces url, ∃ value, keyValue piece = (key,some value) ∧ parseInt value = .ok n

/-- The arguments under their keys. -/
def readings (isRepair moverDir battery doorOpen hasPerson CFloor CSignal : ℤ) : List (JString × ℤ) :=
  [(utf16 "isRepair",isRepair),(utf16 "moveDirection",moverDir),(utf16 "battery",battery),
    (utf16 "isDoorOpen",doorOpen),(utf16 "hasPerson",hasPerson),(utf16 "CFloor",CFloor),
    (utf16 "CSignal",CSignal)]

/-- A query has the device and each of these readings, once each and nothing else. -/
structure CarriesAll (url : JString) (readings : List (JString × ℤ)) : Prop where
  keys : ((pieces url).map fun piece => (keyValue piece).1).Perm (utf16 "Device_Id" :: readings.map Prod.fst)
  nonempty : [] ∉ pieces url
  values : ∀ r ∈ readings, Carries url r.1 r.2

/-- The URL for the sensor data gives its elements back. -/
def GivesBack (mSensorData : List ℤ) : Prop :=
  ∃ url, statusUrl mSensorData = some url ∧
    ∀ r ∈ [(utf16 "CFloor",0),(utf16 "moveDirection",1),(utf16 "isDoorOpen",2),(utf16 "hasPerson",3),
      (utf16 "isRepair",4)], ∃ n, mSensorData[r.2]? = some n ∧ Carries url r.1 n

variable {isRepair moverDir battery doorOpen hasPerson CFloor CSignal n : ℤ}

def piece (key : JString) (n : ℤ) : JString := key ++ 61 :: decimal n

/-- The pieces that the code writes, the third one empty. -/
def written (isRepair moverDir battery doorOpen hasPerson CFloor CSignal : ℤ) : List JString :=
  [utf16 "Device_Id" ++ 61 :: utf16 "10000000000000000001",piece (utf16 "isRepair") isRepair,[],
    utf16 "moveDirection" ++ decimal moverDir,piece (utf16 "battery") battery,
    piece (utf16 "isDoorOpen") doorOpen,piece (utf16 "hasPerson") hasPerson,piece (utf16 "CFloor") CFloor,
    piece (utf16 "CSignal") CSignal]

theorem query_generateHttpGetUrl :
    ((generateHttpGetUrl isRepair moverDir battery doorOpen hasPerson CFloor CSignal).dropWhile
      fun c => c ≠ 63).tail =
        [38].intercalate (written isRepair moverDir battery doorOpen hasPerson CFloor CSignal) := by
  have hbase : (utf16 "http://117.158.178.198:8010/LNG-LOCAL-WEB/inshn/SignalAdd.do?").dropWhile
      (fun c => decide (c ≠ 63)) = [63] := by decide
  have hkeys : utf16 "Device_Id=10000000000000000001" =
        utf16 "Device_Id" ++ 61 :: utf16 "10000000000000000001" ∧
      utf16 "&isRepair=" = 38 :: (utf16 "isRepair" ++ [61]) ∧ utf16 "&" = [38] ∧
      utf16 "&moveDirection" = 38 :: utf16 "moveDirection" ∧
      utf16 "&battery=" = 38 :: (utf16 "battery" ++ [61]) ∧
      utf16 "&isDoorOpen=" = 38 :: (utf16 "isDoorOpen" ++ [61]) ∧
      utf16 "&hasPerson=" = 38 :: (utf16 "hasPerson" ++ [61]) ∧
      utf16 "&CFloor=" = 38 :: (utf16 "CFloor" ++ [61]) ∧
      utf16 "&CSignal=" = 38 :: (utf16 "CSignal" ++ [61]) := by simp [utf16]
  rw [generateHttpGetUrl, List.dropWhile_append, hbase, List.isEmpty_cons, if_neg Bool.false_ne_true]
  simp only [hkeys, written, piece, List.intercalate_cons_cons, List.intercalate_singleton, List.append_assoc,
    List.cons_append, List.nil_append, List.tail_cons]

theorem pieces_generateHttpGetUrl :
    pieces (generateHttpGetUrl isRepair moverDir battery doorOpen hasPerson CFloor CSignal) =
      written isRepair moverDir battery doorOpen hasPerson CFloor CSignal := by
  have hpiece : ∀ key : JString, 38 ∉ key → ∀ n, 38 ∉ piece key n := by
    intro key hkey n h
    simp only [piece, List.mem_append, List.mem_cons] at h
    rcases h with h | h | h
    · exact hkey h
    · cases h
    · exact not_mem_decimal (by decide) h
  have hmove : 38 ∉ utf16 "moveDirection" ++ decimal moverDir :=
    List.not_mem_append (by decide) (not_mem_decimal (by decide))
  rw [pieces, query_generateHttpGetUrl]
  apply List.splitOn_intercalate
  · simp only [written, List.forall_mem_cons, List.not_mem_nil, false_implies, implies_true, and_true]
    exact ⟨by decide,hpiece _ (by decide) _,not_false,hmove,hpiece _ (by decide) _,
      hpiece _ (by decide) _,hpiece _ (by decide) _,hpiece _ (by decide) _,hpiece _ (by decide) _⟩
  · exact List.cons_ne_nil _ _

theorem keyValue_append {key value : JString} (h : 61 ∉ key) :
    keyValue (key ++ 61 :: value) = (key,some value) := by
  have hkey : ∀ c ∈ key, decide (c ≠ 61) = true := fun c hc => decide_eq_true fun heq => h (heq ▸ hc)
  rw [keyValue, List.takeWhile_append_of_pos hkey, List.dropWhile_append_of_pos hkey]
  simp

theorem keyValue_of_not_mem {piece : JString} (h : 61 ∉ piece) : keyValue piece = (piece,none) := by
  have hpiece : ∀ c ∈ piece, decide (c ≠ 61) = true := fun c hc => decide_eq_true fun heq => h (heq ▸ hc)
  rw [keyValue, List.takeWhile_eq_self_iff.mpr hpiece, List.dropWhile_eq_nil_iff.mpr hpiece]
  rfl

theorem keyValue_moveDirection :
    keyValue (utf16 "moveDirection" ++ decimal n) = (utf16 "moveDirection" ++ decimal n,none) :=
  keyValue_of_not_mem (List.not_mem_append (by decide) (not_mem_decimal (by decide)))

/-- The arguments but the moving direction come back. -/
theorem carries_of_ne_moveDirection {r : JString × ℤ}
    (hr : r ∈ readings isRepair moverDir battery doorOpen hasPerson CFloor CSignal)
    (hne : r.1 ≠ utf16 "moveDirection") (hint : -2 ^ 31 ≤ r.2 ∧ r.2 < 2 ^ 31) :
    Carries (generateHttpGetUrl isRepair moverDir battery doorOpen hasPerson CFloor CSignal) r.1 r.2 := by
  have hpiece : 61 ∉ r.1 ∧ piece r.1 r.2 ∈
      written isRepair moverDir battery doorOpen hasPerson CFloor CSignal := by
    simp only [readings, List.mem_cons, List.not_mem_nil, or_false] at hr
    rcases hr with rfl | rfl | rfl | rfl | rfl | rfl | rfl
    · exact ⟨(by decide : 61 ∉ utf16 "isRepair"),by simp [written]⟩
    · exact absurd rfl hne
    · exact ⟨(by decide : 61 ∉ utf16 "battery"),by simp [written]⟩
    · exact ⟨(by decide : 61 ∉ utf16 "isDoorOpen"),by simp [written]⟩
    · exact ⟨(by decide : 61 ∉ utf16 "hasPerson"),by simp [written]⟩
    · exact ⟨(by decide : 61 ∉ utf16 "CFloor"),by simp [written]⟩
    · exact ⟨(by decide : 61 ∉ utf16 "CSignal"),by simp [written]⟩
  rw [← pieces_generateHttpGetUrl] at hpiece
  exact ⟨_,hpiece.2,_,keyValue_append hpiece.1,parseInt_decimal hint⟩

theorem not_carries_moveDirection :
    ¬ Carries (generateHttpGetUrl isRepair moverDir battery doorOpen hasPerson CFloor CSignal)
      (utf16 "moveDirection") n := by
  rintro ⟨piece,hpiece,value,hkey,_⟩
  rw [pieces_generateHttpGetUrl] at hpiece
  have hother : ∀ key v : JString, 61 ∉ key → key ≠ utf16 "moveDirection" → piece ≠ key ++ 61 :: v := by
    rintro key v hnot hne rfl
    rw [keyValue_append hnot, Prod.mk.injEq] at hkey
    exact hne hkey.1
  simp only [written, List.mem_cons, List.not_mem_nil, or_false] at hpiece
  rcases hpiece with h | h | h | h | h | h | h | h | h
  · exact hother (utf16 "Device_Id") (utf16 "10000000000000000001") (by decide) (by decide) h
  · exact hother (utf16 "isRepair") _ (by decide) (by decide) h
  · subst h
    cases hkey
  · rw [h, keyValue_moveDirection, Prod.mk.injEq] at hkey
    exact nomatch hkey.2
  · exact hother (utf16 "battery") _ (by decide) (by decide) h
  · exact hother (utf16 "isDoorOpen") _ (by decide) (by decide) h
  · exact hother (utf16 "hasPerson") _ (by decide) (by decide) h
  · exact hother (utf16 "CFloor") _ (by decide) (by decide) h
  · exact hother (utf16 "CSignal") _ (by decide) (by decide) h

/-- The URL never carries the readings, and it gives back no sensor data. -/
theorem not_carriesAll (isRepair moverDir battery doorOpen hasPerson CFloor CSignal : ℤ) (mSensorData : List ℤ) :
    ¬ CarriesAll (generateHttpGetUrl isRepair moverDir battery doorOpen hasPerson CFloor CSignal)
        (readings isRepair moverDir battery doorOpen hasPerson CFloor CSignal) ∧ ¬ GivesBack mSensorData := by
  constructor
  · intro h
    exact not_carries_moveDirection (h.values (utf16 "moveDirection",moverDir) (by simp [readings]))
  · rintro ⟨url,hurl,h⟩
    obtain ⟨n,_,hn⟩ := h (utf16 "moveDirection",1) (by simp)
    simp only [statusUrl, bind, Option.bind_eq_some_iff] at hurl
    obtain ⟨isRepair,_,moverDir,_,doorOpen,_,hasPerson,_,CFloor,_,hurl⟩ := hurl
    rw [← Option.some.inj hurl] at hn
    exact not_carries_moveDirection hn

/-- At floor 5 the query has an empty piece. -/
theorem not_carriesAll_floor :
    ¬ ∀ isRepair moverDir battery doorOpen hasPerson CFloor CSignal,
      CarriesAll (generateHttpGetUrl isRepair moverDir battery doorOpen hasPerson CFloor CSignal)
        (readings isRepair moverDir battery doorOpen hasPerson CFloor CSignal) := by
  intro h
  apply (h 0 1 80 0 0 5 (-89)).nonempty
  rw [pieces_generateHttpGetUrl]
  decide

end Reading
end AdSystem.Sensor
