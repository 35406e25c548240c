import Mathlib.Data.List.Infix
import AdSystem.Stream.StartCode

/-! # Cutting a key frame into its units

An encoder hands over a key frame as one buffer: the two parameter sets and the picture, each
behind a start code. The sender looks for the second and the third start code and queues the
three pieces. What it queues is decided by where the codes stand.
-/
namespace AdSystem.Stream

/-- The variables of the search. An offset of zero stands for a code not found yet. -/
structure KeyScan where
  find7 : ℕ
  nal7 : Bytes
  find8 : ℕ
  nal8 : Bytes
  nal5 : Bytes
deriving DecidableEq, Repr

def KeyScan.start : KeyScan := ⟨0,[],0,[],[]⟩

/-- The length of a start code, once one is known to stand at `i`. -/
def head01 (p : Bytes) (i : ℕ) : ℕ := if p[i + 2]? = some 1 then 3 else 4

/-- Whether an IDR slice follows the start code at `i`. -/
def idrAt (p : Bytes) (i : ℕ) : Prop := nalType (p.getD (i + head01 p i) 0) = nalIDR

instance (p : Bytes) (i : ℕ) : Decidable (idrAt p i) := inferInstanceAs (Decidable (_ = _))

/-- The player's copy of the search leaves the start code of the third piece out; the sender's keeps
it. -/
def scan (keepCode : Bool) (p : Bytes) : ℕ → ℕ → KeyScan → KeyScan
  | 0, _, s => s
  | fuel + 1, i, s =>
    if i + 4 < p.length then
      if startsCode (p.drop i) then
        let nal5 := if keepCode then p.drop i else p.drop (i + head01 p i)
        if s.find7 = 0 then
          -- the source steps over the byte after the code's first one
          scan keepCode p fuel (i + 2) {s with find7 := i, nal7 := p.take i}
        else if s.find8 = 0 then
          let s := {s with find8 := i, nal8 := (p.take i).drop s.find7}
          if idrAt p i then {s with nal5 := nal5} else scan keepCode p fuel (i + 1) s
        else {s with nal5 := nal5}
      else scan keepCode p fuel (i + 1) s
    else s

/-- The buffers that are queued for one of the encoder's, by the type of its first unit. -/
def nalPieces (p : Bytes) (type : UInt8) : List Bytes :=
  if type = nalSPS then
    let s := scan true p p.length 4 .start
    [s.nal7,s.nal8,s.nal5]
  else [p]

/-- The first start code at or behind `i`, among the places the search looks at. -/
def nextCode (p : Bytes) (i : ℕ) : Option ℕ :=
  (List.range' i (p.length - 4 - i)).find? fun j => startsCode (p.drop j)

/-- Where the third piece begins, when the second start code stands at `b`. -/
def pictureStart (p : Bytes) (b : ℕ) : Option ℕ := if idrAt p b then some b else nextCode p (b + 1)

section
variable {p : Bytes} {i j b fuel : ℕ} {s : KeyScan}

theorem nextCode_eq_some : nextCode p i = some j ↔
    i ≤ j ∧ j + 4 < p.length ∧ startsCode (p.drop j) ∧ ∀ k, i ≤ k → k < j → ¬ startsCode (p.drop k) := by
  rw [nextCode, List.find?_range'_eq_some]
  simp only [List.mem_range'_1, decide_eq_true_eq, Bool.not_eq_true', decide_eq_false_iff_not]
  constructor
  · rintro ⟨hcode,⟨hle,hlt⟩,hnone⟩
    exact ⟨hle,by omega,hcode,hnone⟩
  · rintro ⟨hle,hlt,hcode,hnone⟩
    exact ⟨hcode,⟨hle,by omega⟩,hnone⟩

theorem nextCode_step (hi : i + 4 < p.length) (h : ¬ startsCode (p.drop i)) :
    nextCode p i = nextCode p (i + 1) := by
  have hlen : p.length - 4 - i = (p.length - 4 - (i + 1)) + 1 := by omega
  rw [nextCode, hlen, List.range'_succ, List.find?_cons_of_neg (by simpa using h)]
  rfl

theorem nextCode_here (hi : i + 4 < p.length) (h : startsCode (p.drop i)) : nextCode p i = some i :=
  nextCode_eq_some.mpr ⟨le_rfl,hi,h,fun k hk hk' => by omega⟩

theorem nextCode_end (hi : p.length ≤ i + 4) : nextCode p i = none := by
  have hlen : p.length - 4 - i = 0 := by omega
  rw [nextCode, hlen, List.range'_zero, List.find?_nil]

/-- The search goes straight to the next start code. -/
theorem scan_next (h : p.length ≤ i + fuel) :
    scan true p fuel i s = (nextCode p i).elim s fun j => scan true p (fuel - (j - i)) j s := by
  induction fuel generalizing i with
  | zero =>
    rw [nextCode_end (by omega)]
    rfl
  | succ fuel ih =>
    by_cases hi : i + 4 < p.length
    · by_cases hcode : startsCode (p.drop i)
      · rw [nextCode_here hi hcode]
        simp
      · rw [scan, if_pos hi, if_neg hcode, nextCode_step hi hcode, ih (by omega)]
        cases hnext : nextCode p (i + 1) with
        | none => rfl
        | some j =>
          have hj := (nextCode_eq_some.mp hnext).1
          simp only [Option.elim_some]
          congr 1
          omega
    · rw [scan, if_neg hi, nextCode_end (by omega)]
      rfl

theorem scan_at (hi : i + 4 < p.length) (h : startsCode (p.drop i)) (hf : fuel ≠ 0) :
    scan true p fuel i s =
      if s.find7 = 0 then scan true p (fuel - 1) (i + 2) {s with find7 := i, nal7 := p.take i}
      else if s.find8 = 0 then
        if idrAt p i then {s with find8 := i, nal8 := (p.take i).drop s.find7, nal5 := p.drop i}
        else scan true p (fuel - 1) (i + 1) {s with find8 := i, nal8 := (p.take i).drop s.find7}
      else {s with nal5 := p.drop i} := by
  obtain ⟨fuel,rfl⟩ := Nat.exists_eq_succ_of_ne_zero hf
  rw [scan, if_pos hi, if_pos h]
  rfl

/-- The third piece, once the first two are found. -/
theorem scan_third (hfind : s.find7 ≠ 0) (hfind8 : s.find8 ≠ 0) (hf : p.length ≤ i + fuel) :
    scan true p fuel i s = (nextCode p i).elim s fun c => {s with nal5 := p.drop c} := by
  rw [scan_next hf]
  cases hc : nextCode p i with
  | none => rfl
  | some c =>
    obtain ⟨hle,hlt,hcode,_⟩ := nextCode_eq_some.mp hc
    simp only [Option.elim_some]
    rw [scan_at hlt hcode (by omega), if_neg hfind, if_neg hfind8]

theorem scan_second (hfind : s.find7 ≠ 0) (hfind8 : s.find8 = 0) (hi : 0 < i) (hf : p.length ≤ i + fuel) :
    scan true p fuel i s = (nextCode p i).elim s fun b =>
      (pictureStart p b).elim {s with find8 := b, nal8 := (p.take b).drop s.find7} fun c =>
        {s with find8 := b, nal8 := (p.take b).drop s.find7, nal5 := p.drop c} := by
  rw [scan_next hf]
  cases hb : nextCode p i with
  | none => rfl
  | some b =>
    obtain ⟨hle,hlt,hcode,_⟩ := nextCode_eq_some.mp hb
    simp only [Option.elim_some]
    rw [scan_at hlt hcode (by omega), if_neg hfind, if_pos hfind8, pictureStart]
    by_cases hidr : idrAt p b
    · rw [if_pos hidr, if_pos hidr]
      rfl
    · rw [if_neg hidr, if_neg hidr]
      exact scan_third hfind (by simp only; omega) (by omega)

theorem scan_first (hf : p.length ≤ i + fuel) :
    scan true p fuel i .start = (nextCode p i).elim .start fun a =>
      scan true p (fuel - (a - i) - 1) (a + 2) {KeyScan.start with find7 := a, nal7 := p.take a} := by
  rw [scan_next hf]
  cases ha : nextCode p i with
  | none => rfl
  | some a =>
    obtain ⟨hle,hlt,hcode,_⟩ := nextCode_eq_some.mp ha
    simp only [Option.elim_some]
    rw [scan_at hlt hcode (by omega)]
    exact if_pos rfl

/-- The three pieces of a key frame, by the places of its start codes. -/
def keyPieces (p : Bytes) : List Bytes :=
  (nextCode p 4).elim [[],[],[]] fun a =>
    (nextCode p (a + 2)).elim [p.take a,[],[]] fun b =>
      [p.take a,(p.take b).drop a,(pictureStart p b).elim [] fun c => p.drop c]

theorem nalPieces_key (p : Bytes) : nalPieces p nalSPS = keyPieces p := by
  rw [nalPieces, if_pos rfl, keyPieces, scan_first (by omega)]
  cases ha : nextCode p 4 with
  | none => rfl
  | some a =>
    have hle := (nextCode_eq_some.mp ha).1
    simp only [Option.elim_some]
    rw [scan_second (by simp only; omega) rfl (by omega) (by omega)]
    cases nextCode p (a + 2) with
    | none => rfl
    | some b =>
      simp only [Option.elim_some]
      cases pictureStart p b <;> rfl

theorem startsCode_drop : startsCode (p.drop i) ↔
    p[i]? = some 0 ∧ p[i + 1]? = some 0 ∧ (p[i + 2]? = some 1 ∨ p[i + 2]? = some 0 ∧ p[i + 3]? = some 1) := by
  have hget (k : ℕ) : p[i + k]? = (p.drop i)[k]? := by rw [List.getElem?_drop]
  rw [← Nat.add_zero i, hget 0, Nat.add_zero, hget 1, hget 2, hget 3, startsCode]
  generalize p.drop i = bs
  constructor
  · rintro (⟨rest,rfl⟩ | ⟨rest,rfl⟩)
    · exact ⟨rfl,rfl,.inr ⟨rfl,rfl⟩⟩
    · exact ⟨rfl,rfl,.inl rfl⟩
  · rcases bs with _ | ⟨b0,_ | ⟨b1,_ | ⟨b2,bs⟩⟩⟩
    · rintro ⟨h,_⟩; cases h
    · rintro ⟨_,h,_⟩; cases h
    · rintro ⟨_,_,h | ⟨h,_⟩⟩ <;> cases h
    · rintro ⟨h0,h1,h2 | ⟨h2,h3⟩⟩
      · cases h0; cases h1; cases h2
        exact .inr ⟨bs,rfl⟩
      · cases h0; cases h1; cases h2
        rcases bs with _ | ⟨b3,bs⟩
        · cases h3
        · cases h3
          exact .inl ⟨bs,rfl⟩

/-- A start code does not run into the next one. -/
theorem startsCode_take (hi : startsCode (p.drop i)) (hj : startsCode (p.drop j)) (hij : i + 2 ≤ j) :
    startsCode ((p.take j).drop i) := by
  rw [startsCode_drop] at hi hj
  rw [startsCode_drop]
  have htake {k : ℕ} (hk : k < j) : (p.take j)[k]? = p[k]? := List.getElem?_take_of_lt hk
  obtain ⟨h0,h1,h2⟩ := hi
  rw [htake (by omega), htake (by omega)]
  refine ⟨h0,h1,?_⟩
  have hj2 : j ≠ i + 2 := by
    rintro rfl
    rcases h2 with h2 | ⟨_,h3⟩
    · rw [h2] at hj
      exact absurd (Option.some.inj hj.1) (by decide)
    · rw [h3] at hj
      exact absurd (Option.some.inj hj.2.1) (by decide)
  rw [htake (by omega)]
  rcases h2 with h2 | ⟨h2,h3⟩
  · exact .inl h2
  · have hj3 : j ≠ i + 3 := by
      rintro rfl
      rw [h3] at hj
      exact absurd (Option.some.inj hj.1) (by decide)
    rw [htake (by omega)]
    exact .inr ⟨h2,h3⟩

theorem pictureStart_eq_some (hb : b + 4 < p.length) (hcode : startsCode (p.drop b)) (h : pictureStart p b = some j) :
    b ≤ j ∧ j < p.length ∧ startsCode (p.drop j) ∧ (b = j ↔ idrAt p b) := by
  rw [pictureStart] at h
  by_cases hidr : idrAt p b
  · rw [if_pos hidr] at h
    cases h
    exact ⟨le_rfl,by omega,hcode,iff_of_true rfl hidr⟩
  · rw [if_neg hidr] at h
    obtain ⟨hle,hlt,hj,_⟩ := nextCode_eq_some.mp h
    exact ⟨by omega,by omega,hj,iff_of_false (by omega) hidr⟩

theorem take_drop_tile (hij : i ≤ j) : (p.take j).drop i ++ p.drop j = p.drop i := by
  rw [List.drop_take, ← Nat.add_sub_of_le hij, ← List.drop_drop, Nat.add_sub_of_le hij, List.take_append_drop]

/-- Where the third piece begins: at the second start code found, when an IDR slice follows it, else at the next one
behind that. -/
def thirdPiece (p : Bytes) : Option ℕ :=
  (nextCode p 4).bind fun a => (nextCode p (a + 2)).bind (pictureStart p)

/-- The third piece is empty exactly where the search finds no place for it. Else the three make up the buffer, but
for what stands between the second and the third: nothing, exactly when an IDR slice follows the second. -/
theorem nalPieces_tile (p : Bytes) :
    ∃ nal7 nal8 gap nal5, nalPieces p nalSPS = [nal7,nal8,nal5] ∧ (nal5 = [] ↔ thirdPiece p = none) ∧
      (nal5 ≠ [] → nal7 ≠ [] ∧ nal7 ++ (nal8 ++ (gap ++ nal5)) = p ∧ startsCode nal8 ∧ startsCode nal5 ∧
        (gap = [] ↔ idrAt p (nal7.length + nal8.length))) := by
  have hnone {nal7 nal8 : Bytes} (hpieces : nalPieces p nalSPS = [nal7,nal8,[]]) (hthird : thirdPiece p = none) :
      ∃ nal7 nal8 gap nal5, nalPieces p nalSPS = [nal7,nal8,nal5] ∧ (nal5 = [] ↔ thirdPiece p = none) ∧
        (nal5 ≠ [] → nal7 ≠ [] ∧ nal7 ++ (nal8 ++ (gap ++ nal5)) = p ∧ startsCode nal8 ∧ startsCode nal5 ∧
          (gap = [] ↔ idrAt p (nal7.length + nal8.length))) :=
    ⟨nal7,nal8,[],[],hpieces,iff_of_true rfl hthird,fun h => absurd rfl h⟩
  have hkey := nalPieces_key p
  rw [keyPieces] at hkey
  cases ha : nextCode p 4 with
  | none =>
    rw [ha, Option.elim_none] at hkey
    exact hnone hkey (by rw [thirdPiece, ha, Option.bind_none])
  | some a =>
    rw [ha, Option.elim_some] at hkey
    cases hb : nextCode p (a + 2) with
    | none =>
      rw [hb, Option.elim_none] at hkey
      exact hnone hkey (by rw [thirdPiece, ha, Option.bind_some, hb, Option.bind_none])
    | some b =>
      obtain ⟨ha4,halt,hacode,_⟩ := nextCode_eq_some.mp ha
      obtain ⟨hab,hblt,hbcode,_⟩ := nextCode_eq_some.mp hb
      have hthird : thirdPiece p = pictureStart p b := by
        rw [thirdPiece, ha, Option.bind_some, hb, Option.bind_some]
      rw [hb, Option.elim_some] at hkey
      cases hc : pictureStart p b with
      | none =>
        rw [hc, Option.elim_none] at hkey
        exact hnone hkey (hthird.trans hc)
      | some c =>
        rw [hc, Option.elim_some] at hkey
        obtain ⟨hbc,hclt,hccode,hidr⟩ := pictureStart_eq_some hblt hbcode hc
        have hlen7 : (p.take a).length = a := List.length_take_of_le (by omega)
        have hlen8 : ((p.take b).drop a).length = b - a := by
          rw [List.length_drop, List.length_take_of_le (by omega)]
        have hgap : ((p.take c).drop b).length = c - b := by
          rw [List.length_drop, List.length_take_of_le (by omega)]
        have hne : p.drop c ≠ [] := List.ne_nil_of_length_pos (by rw [List.length_drop]; omega)
        have hplace : thirdPiece p ≠ none := by
          rw [hthird, hc]
          exact Option.some_ne_none c
        refine ⟨p.take a,(p.take b).drop a,(p.take c).drop b,p.drop c,hkey,iff_of_false hne hplace,
          fun _ => ⟨?_,?_,?_,hccode,?_⟩⟩
        · exact List.ne_nil_of_length_pos (by omega)
        · rw [take_drop_tile hbc, take_drop_tile (by omega), List.take_append_drop]
        · exact startsCode_take hacode hbcode hab
        · rw [hlen7, hlen8, Nat.add_sub_of_le (by omega), ← hidr, ← List.length_eq_zero_iff, hgap]
          omega

end

/-- Units one behind the other, each with its start code. -/
def byteStream (us : List (StartCode × NalUnit)) : Bytes := us.flatMap fun u => u.1.bytes ++ u.2.bytes

/-- The units of the third piece, when the unit behind the second start code is `w`: they begin with
it when it is an IDR slice; else the search goes on behind the first byte of its start code, and
finds the rest of a long one, or the start code of the unit after it. -/
def pictureUnits (c : StartCode) (w : NalUnit) (rest : List (StartCode × NalUnit)) : List (StartCode × NalUnit) :=
  if w.type = nalIDR then (c,w) :: rest
  else
    match c with
    | .long => (.short,w) :: rest
    | .short => rest

section
variable {c d : StartCode} {s u v w : NalUnit} {us rest : List (StartCode × NalUnit)} {pre mid tail : Bytes} {k : ℕ}

theorem byteStream_cons : byteStream ((c,u) :: us) = c.bytes ++ u.bytes ++ byteStream us := List.flatMap_cons

theorem byteStream_singleton : byteStream [(c,u)] = c.bytes ++ u.bytes := List.append_nil _

/-- Nothing is found where no start code begins. -/
theorem nextCode_gap (hk : k ≤ mid.length)
    (h : ∀ j, k ≤ j → j < mid.length → ¬ startsCode (mid.drop j ++ tail)) :
    nextCode (pre ++ (mid ++ tail)) (pre.length + k) = nextCode (pre ++ (mid ++ tail)) (pre.length + mid.length) := by
  obtain ⟨n,hn⟩ := Nat.exists_eq_add_of_le hk
  induction n generalizing k with
  | zero => rw [hn, Nat.add_zero]
  | succ n ih =>
    rw [← ih (k := k + 1) (by omega) (fun j hj => h j (by omega)) (by omega)]
    by_cases hlt : pre.length + k + 4 < (pre ++ (mid ++ tail)).length
    · refine nextCode_step hlt ?_
      rw [List.drop_length_add_append, List.drop_append_of_le_length hk]
      exact h k le_rfl (by omega)
    · rw [nextCode_end (by omega), nextCode_end (by omega)]

/-- A unit and its start code are not taken for another code, once the code is entered. -/
theorem not_startsCode_inside (hk : 2 ≤ k ∨ c = .short ∧ 1 ≤ k) (hk' : k < (c.bytes ++ u.bytes).length) :
    ¬ startsCode ((c.bytes ++ u.bytes).drop k ++ tail) := by
  by_cases hcode : c.bytes.length ≤ k
  · rw [List.drop_append, List.drop_eq_nil_of_le hcode, List.nil_append]
    rw [List.length_append] at hk'
    exact u.not_startsCode (by omega) tail
  · have hcases : c = .short ∧ k = 1 ∨ c.bytes.drop k = [0,1] ∨ c.bytes.drop k = [1] := by
      cases c with
      | short =>
        have hlt : k < 3 := not_le.mp hcode
        obtain rfl | rfl : k = 1 ∨ k = 2 := by omega
        · exact .inl ⟨rfl,rfl⟩
        · exact .inr (.inr rfl)
      | long =>
        have hlt : k < 4 := not_le.mp hcode
        have hge : 2 ≤ k := hk.resolve_right fun h => by cases h.1
        obtain rfl | rfl : k = 2 ∨ k = 3 := by omega
        · exact .inr (.inl rfl)
        · exact .inr (.inr rfl)
    rw [List.drop_append_of_le_length (by omega)]
    have hone : ∀ l : Bytes, l = [0,1] ∨ l = [1] → ¬ startsCode (l ++ u.bytes ++ tail) := by
      rintro l (rfl | rfl) <;> simp [startsCode, List.cons_prefix_cons]
    rcases hcases with ⟨rfl,rfl⟩ | h | h
    · exact hone _ (.inl rfl)
    · exact hone _ (.inl h)
    · exact hone _ (.inr h)

theorem byteStream_long (hus : us ≠ []) (h2 : ∀ x ∈ us, 2 ≤ x.2.bytes.length) : 4 < (byteStream us).length := by
  obtain ⟨⟨c,u⟩,us,rfl⟩ := List.exists_cons_of_ne_nil hus
  have hu := h2 _ List.mem_cons_self
  have hc : 3 ≤ c.bytes.length := by cases c <;> decide
  rw [byteStream_cons, List.length_append, List.length_append]
  simp only at hu
  omega

/-- From inside a unit or its start code, the next code found is that of the unit behind it. -/
theorem nextCode_inside (hk : 2 ≤ k ∨ c = .short ∧ 1 ≤ k) (hk' : k ≤ (c.bytes ++ u.bytes).length)
    (h2 : ∀ x ∈ us, 2 ≤ x.2.bytes.length) :
    nextCode (pre ++ byteStream ((c,u) :: us)) (pre.length + k) =
      if us = [] then none else some (pre.length + (c.bytes ++ u.bytes).length) := by
  rw [byteStream_cons, nextCode_gap hk' fun j hkj hj =>
    not_startsCode_inside (by rcases hk with hk | hk <;> [left; right] <;> [omega; exact ⟨hk.1,by omega⟩]) hj]
  by_cases hus : us = []
  · subst hus
    rw [if_pos rfl]
    exact nextCode_end (by simp [byteStream])
  · have hlong := byteStream_long hus h2
    rw [if_neg hus]
    refine nextCode_here (by simp only [List.length_append] at hlong ⊢; omega) ?_
    rw [List.drop_length_add_append, List.drop_left]
    obtain ⟨⟨d,v⟩,us,rfl⟩ := List.exists_cons_of_ne_nil hus
    rw [byteStream_cons, List.append_assoc]
    exact d.startsCode _

theorem idrAt_unit : idrAt (pre ++ byteStream ((c,u) :: us)) pre.length ↔ u.type = nalIDR := by
  have hget (k : ℕ) : (pre ++ byteStream ((c,u) :: us)).getD (pre.length + k) 0 =
      (byteStream ((c,u) :: us)).getD k 0 := by
    rw [List.getD_eq_getElem?_getD, List.getElem?_append_right (by omega), Nat.add_sub_cancel_left,
      List.getD_eq_getElem?_getD]
  rw [idrAt, hget, head01, List.getElem?_append_right (by omega), Nat.add_sub_cancel_left]
  cases c <;> rfl

variable (pre) in
/-- Where the third piece begins, when the second start code is that of `w`. -/
theorem pictureStart_unit (h2 : ∀ x ∈ (d,w) :: rest, 2 ≤ x.2.bytes.length) :
    (pictureStart (pre ++ byteStream ((d,w) :: rest)) pre.length).elim []
      (fun c => (pre ++ byteStream ((d,w) :: rest)).drop c) = byteStream (pictureUnits d w rest) := by
  have hrest := (List.forall_mem_cons.mp h2).2
  unfold pictureStart pictureUnits
  by_cases hidr : w.type = nalIDR
  · rw [if_pos (idrAt_unit.mpr hidr), if_pos hidr]
    exact List.drop_left
  · rw [if_neg (mt idrAt_unit.mp hidr), if_neg hidr]
    cases d with
    | short =>
      rw [nextCode_inside (.inr ⟨rfl,le_rfl⟩) (by simp [StartCode.bytes]) hrest]
      by_cases hnil : rest = []
      · subst hnil
        rfl
      · rw [if_neg hnil, Option.elim_some, byteStream_cons, ← List.append_assoc, ← List.length_append,
          List.drop_left]
    | long =>
      have hlong : 4 < (byteStream ((.short,w) :: rest)).length :=
        byteStream_long (List.cons_ne_nil _ _) (List.forall_mem_cons.mpr ⟨(List.forall_mem_cons.mp h2).1,hrest⟩)
      have hstream : byteStream ((.long,w) :: rest) = 0 :: byteStream ((.short,w) :: rest) := rfl
      rw [nextCode_here, Option.elim_some, List.drop_length_add_append, hstream]
      · rfl
      · rw [List.length_append, hstream, List.length_cons]
        omega
      · rw [List.drop_length_add_append, hstream, List.drop_succ_cons, List.drop_zero, byteStream_cons,
          List.append_assoc]
        exact StartCode.startsCode _ _

/-- The pieces of a key frame that is two units and then others, when the units that the search has to find are of
two bytes or more. -/
theorem nalPieces_byteStream (h2 : ∀ x ∈ (c,v) :: (d,w) :: rest, 2 ≤ x.2.bytes.length) :
    nalPieces (byteStream ((.long,s) :: (c,v) :: (d,w) :: rest)) nalSPS =
      [byteStream [(.long,s)],byteStream [(c,v)],byteStream (pictureUnits d w rest)] := by
  have h2' := (List.forall_mem_cons.mp h2).2
  set first := StartCode.long.bytes ++ s.bytes with hfirst
  set second := c.bytes ++ v.bytes with hsecond
  have ha : nextCode (byteStream ((.long,s) :: (c,v) :: (d,w) :: rest)) 4 = some first.length := by
    have h : nextCode ([] ++ byteStream ((.long,s) :: (c,v) :: (d,w) :: rest)) (0 + 4) = _ :=
      nextCode_inside (.inl (by omega)) (by simp [StartCode.bytes]) h2
    rwa [List.nil_append, List.length_nil, Nat.zero_add, Nat.zero_add, if_neg (List.cons_ne_nil _ _)] at h
  have hb : nextCode (first ++ byteStream ((c,v) :: (d,w) :: rest)) (first.length + 2) =
      some (first.length + second.length) := by
    have hlen : 2 ≤ (c.bytes ++ v.bytes).length := by cases c <;> simp [StartCode.bytes]
    rw [nextCode_inside (.inl le_rfl) hlen h2', if_neg (List.cons_ne_nil _ _)]
  have hc := pictureStart_unit (first ++ second) h2'
  rw [List.length_append] at hc
  rw [nalPieces_key, keyPieces, ha, Option.elim_some, byteStream_cons, ← hfirst, hb, Option.elim_some, byteStream_cons,
    ← hsecond, ← List.append_assoc, hc, byteStream_singleton, byteStream_singleton]
  congr 2
  · rw [List.append_assoc, List.take_left]
  · rw [← List.length_append, List.take_left, List.drop_left]

end

/-- The shortest unit of its kind that a start code can follow. -/
def twoByteUnit (header : UInt8) : NalUnit where
  header := header
  payload := [0x80]
  clean i b h := by
    have hlen := h.length_le
    simp only [List.length_cons, List.length_nil, List.length_drop] at hlen
    omega
  last_ne_zero := by
    rw [List.getLast_cons (List.cons_ne_nil _ _), List.getLast_singleton]
    decide

/-- A picture of two slices. -/
theorem nalPieces_slices :
    nalPieces (byteStream [(.long,twoByteUnit 0x67),(.long,twoByteUnit 0x68),(.long,twoByteUnit 0x65),
      (.short,twoByteUnit 0x65)]) nalSPS =
        [byteStream [(.long,twoByteUnit 0x67)],byteStream [(.long,twoByteUnit 0x68)],
          byteStream (pictureUnits .long (twoByteUnit 0x65) [(.short,twoByteUnit 0x65)])] :=
  nalPieces_byteStream (by simp [NalUnit.bytes, twoByteUnit])

end AdSystem.Stream
