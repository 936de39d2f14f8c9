import Journey.Clock
import Journey.Proofs.WholeNumbers

/-!
# Written Times

Which texts are times, what they say, and how times are written.

Reading a time splits the text at its colons and then reads each component as digits. A
component contains no colon, so splitting undoes joining and the components of an accepted
text are those it was joined from. `parse_eq_ok_iff` says so: what is read is exactly what
was written.

Writing a time gives its hours, minutes and seconds, each as its decimal digits, at least
two of them. The digits of a number are those that it was read from, up to the zeros in
front (`toDigits_value`). So writing what was read changes nothing but such zeros of the
hour, and adds a second that was left out.

## Main definitions

* `Clock.value`: The number that digits stand for.
* `Clock.Hour`, `Clock.Sixtieth`: The components of a written time.
* `Clock.Written`: A written time.
* `Clock.Written.text`, `Clock.Written.seconds`: Its text, and what it says.
* `Clock.Written.tidied`: Its text with two digits for the hour, if that is enough, and with
  a second.

## Theorems

* `Clock.parse_eq_ok_iff`: What is read was written.
* `Clock.render_seconds`: Writing what was read.
* `Clock.parse_render`, `Clock.parse_render_of_le`: Reading what was rendered.
* `Clock.format_eq_render`: Whole seconds are not rounded.
* `Clock.parse_format`: Reading and writing times.
-/

namespace Journey

namespace Clock

/-- The number that digits stand for. -/
def value (text : List Char) : ℕ := Nat.ofDigitChars 10 text 0

/-- An hour is one to three digits. -/
structure Hour (text : List Char) : Prop where
  digits : ∀ c ∈ text, c.isDigit = true
  pos : 0 < text.length
  length_le : text.length ≤ 3

/-- A minute or a second is two digits, and less than sixty. -/
structure Sixtieth (text : List Char) : Prop where
  digits : ∀ c ∈ text, c.isDigit = true
  length_eq : text.length = 2
  value_le : value text ≤ 59

/-- Components with colons between them. -/
def joined (components : List (List Char)) : String :=
  String.ofList ([':'].intercalate components)

/-- A written time. -/
structure Written where
  hour : List Char
  minute : List Char
  second : Option (List Char)
  isHour : Hour hour
  isMinute : Sixtieth minute
  isSecond : ∀ text ∈ second, Sixtieth text

namespace Written

/-- The text of the time. The second may be left out. -/
def text (w : Written) : String := joined (w.hour :: w.minute :: w.second.toList)

/-- What the time says, in seconds. -/
def seconds (w : Written) : ℕ :=
  value w.hour * 3600 + value w.minute * 60 + (w.second.map value).getD 0

/-- The text with an hour of at least two digits and no more zeros than that takes, and with a
    second. -/
def tidied (w : Written) : String :=
  joined [(w.hour.dropWhile (· == '0')).leftpad 2 '0', w.minute, w.second.getD ['0', '0']]

end Written

section Splitting

variable {separator : Char}

theorem splitAt_eq (text : List Char) : splitAt separator text = text.splitOn separator := by
  induction text with
  | nil => exact (List.splitOn_nil separator).symm
  | cons c rest ih =>
      -- There is always a first component, to which the letter can be added.
      have hne : rest.splitOn separator ≠ [] := List.splitOn_ne_nil separator rest
      unfold splitAt
      rw [ih]
      unfold List.splitOn at hne ⊢
      rw [List.splitOnP_cons_eq_if_modifyHead]
      simp only [beq_iff_eq]
      by_cases h : c = separator
      · rw [if_pos h, if_pos h]
      · rw [if_neg h, if_neg h]
        cases hsplit : rest.splitOnP (· == separator) with
        | nil => exact absurd hsplit hne
        | cons first others => rfl

/-- Splitting finds the components again, as a digit is no colon. -/
theorem splitAt_joined {components : List (List Char)} (hne : components ≠ [])
    (h : ∀ text ∈ components, ∀ c ∈ text, c.isDigit = true) :
    splitAt ':' (joined components).toList = components := by
  unfold joined
  rw [splitAt_eq, String.toList_ofList]
  exact List.splitOn_intercalate ':'
    (fun text htext hcolon => Bool.false_ne_true (h text htext ':' hcolon)) hne

theorem Written.splitAt_text (w : Written) :
    splitAt ':' w.text.toList = w.hour :: w.minute :: w.second.toList := by
  refine splitAt_joined (List.cons_ne_nil _ _) fun text hmem => ?_
  rcases List.mem_cons.mp hmem with rfl | hmem
  · exact w.isHour.digits
  rcases List.mem_cons.mp hmem with rfl | hmem
  · exact w.isMinute.digits
  · exact (w.isSecond text (Option.mem_toList.mp hmem)).digits

end Splitting

section Digits

variable {text : List Char} {n : ℕ}

theorem digit?_eq (c : Char) :
    digit? c = if c.isDigit = true then some (c.toNat - '0'.toNat) else none := by
  have hiff : ('0' ≤ c ∧ c ≤ '9') ↔ c.isDigit = true := by
    unfold Char.isDigit
    rw [Bool.and_eq_true, decide_eq_true_eq, decide_eq_true_eq]
    rfl
  unfold digit?
  simp only [hiff]

-- The digits that were read before are in front of the text.
theorem foldlM_digit? (text : List Char) : ∀ k n : ℕ,
    text.foldlM (fun n c => (digit? c).map (n * 10 + ·)) k = some n ↔
      (∀ c ∈ text, c.isDigit = true) ∧ Nat.ofDigitChars 10 text k = n := by
  induction text with
  | nil =>
      intro k n
      simp [Nat.ofDigitChars]
  | cons c rest ih =>
      intro k n
      rw [List.foldlM_cons, digit?_eq, Nat.ofDigitChars_cons, List.forall_mem_cons]
      by_cases hc : c.isDigit = true
      · rw [if_pos hc]
        change rest.foldlM _ (k * 10 + _) = some n ↔ _
        rw [ih, Nat.mul_comm k]
        tauto
      · rw [if_neg hc]
        simp [hc]

theorem digits?_eq_some_iff :
    digits? text = some n ↔ (∀ c ∈ text, c.isDigit = true) ∧ value text = n :=
  foldlM_digit? text 0 n

end Digits

section Reading

variable {text hour minute : List Char} {second : Option (List Char)} {n : ℕ} {e e' : ParseError}

theorem Hour.hour?_eq (h : Hour text) : hour? text = some (value text) := by
  have hempty : text.isEmpty = false :=
    List.isEmpty_eq_false_iff.mpr (List.ne_nil_of_length_pos h.pos)
  have hlong : decide (3 < text.length) = false := decide_eq_false (Nat.not_lt_of_le h.length_le)
  unfold hour?
  rw [hempty, hlong, Bool.or_self, if_neg Bool.false_ne_true, digits?_eq_some_iff]
  exact ⟨h.digits, rfl⟩

theorem hour_of_hour? (h : hour? text = some n) : Hour text ∧ value text = n := by
  unfold hour? at h
  by_cases hlength : (text.isEmpty || decide (3 < text.length)) = true
  · rw [if_pos hlength] at h
    cases h
  · rw [if_neg hlength, digits?_eq_some_iff] at h
    rw [Bool.or_eq_true, List.isEmpty_iff_length_eq_zero, decide_eq_true_eq] at hlength
    exact ⟨⟨h.1, by omega, by omega⟩, h.2⟩

theorem Sixtieth.twoDigits?_eq (h : Sixtieth text) : twoDigits? text = some (value text) := by
  unfold twoDigits?
  rw [if_pos h.length_eq, digits?_eq_some_iff]
  exact ⟨h.digits, rfl⟩

theorem sixtieth_of_twoDigits? (h : twoDigits? text = some n) (hle : n ≤ 59) :
    Sixtieth text ∧ value text = n := by
  unfold twoDigits? at h
  by_cases hlength : text.length = 2
  · rw [if_pos hlength, digits?_eq_some_iff] at h
    rcases h with ⟨hdigits, rfl⟩
    exact ⟨⟨hdigits, hlength, hle⟩, rfl⟩
  · rw [if_neg hlength] at h
    cases h

/-- Checking an hour and going on. -/
theorem hour_and_then_iff (next : ℕ → Except ParseError ℕ) :
    (match hour? text with
      | none => Except.error e
      | some h => next h) = .ok n ↔ Hour text ∧ next (value text) = .ok n := by
  constructor
  · intro h
    cases hread : hour? text with
    | none =>
        rw [hread] at h
        cases h
    | some k =>
        rcases hour_of_hour? hread with ⟨hhour, rfl⟩
        rw [hread] at h
        exact ⟨hhour, h⟩
  · rintro ⟨hhour, hnext⟩
    rw [hhour.hour?_eq]
    exact hnext

/-- Checking a minute or a second and going on. -/
theorem sixtieth_and_then_iff (next : ℕ → Except ParseError ℕ) :
    (match twoDigits? text with
      | none => Except.error e
      | some m => if m ≤ 59 then next m else .error e') = .ok n ↔
      Sixtieth text ∧ next (value text) = .ok n := by
  constructor
  · intro h
    cases hread : twoDigits? text with
    | none =>
        rw [hread] at h
        cases h
    | some k =>
        rw [hread] at h
        dsimp only at h
        by_cases hle : k ≤ 59
        · rcases sixtieth_of_twoDigits? hread hle with ⟨hsixtieth, rfl⟩
          rw [if_pos hle] at h
          exact ⟨hsixtieth, h⟩
        · rw [if_neg hle] at h
          cases h
  · rintro ⟨hsixtieth, hnext⟩
    rw [hsixtieth.twoDigits?_eq]
    dsimp only
    rw [if_pos hsixtieth.value_le]
    exact hnext

theorem parseSecond_eq_ok_iff : parseSecond second = .ok n ↔
    (∀ text ∈ second, Sixtieth text) ∧ (second.map value).getD 0 = n := by
  cases second with
  | none => simp [parseSecond]
  | some text =>
      refine (sixtieth_and_then_iff Except.ok).trans ?_
      simp

theorem parseComponents_eq_ok_iff : parseComponents hour minute second = .ok n ↔
    Hour hour ∧ Sixtieth minute ∧ (∀ text ∈ second, Sixtieth text) ∧
      seconds (value hour) (value minute) ((second.map value).getD 0) = n := by
  refine (hour_and_then_iff _).trans (and_congr_right fun _ => ?_)
  refine (sixtieth_and_then_iff _).trans (and_congr_right fun _ => ?_)
  cases h : parseSecond second with
  | error e =>
      constructor
      · intro hc
        cases hc
      · rintro ⟨hsecond, -⟩
        rw [parseSecond_eq_ok_iff.mpr ⟨hsecond, rfl⟩] at h
        cases h
  | ok s =>
      rcases parseSecond_eq_ok_iff.mp h with ⟨hsecond, rfl⟩
      exact ⟨fun hn => ⟨hsecond, Except.ok.inj hn⟩, fun ⟨_, hn⟩ => congrArg Except.ok hn⟩

/-- What is read was written. -/
theorem parse_eq_ok_iff {text : String} :
    parse text = .ok n ↔ ∃ w : Written, w.text = text ∧ w.seconds = n := by
  constructor
  · intro h
    have hjoin : [':'].intercalate (splitAt ':' text.toList) = text.toList := by
      rw [splitAt_eq, List.intercalate_splitOn]
    unfold parse at h
    split at h
    · rename_i hour minute hsplit
      rcases parseComponents_eq_ok_iff.mp h with ⟨hhour, hminute, hsecond, hn⟩
      rw [hsplit] at hjoin
      exact ⟨⟨hour, minute, none, hhour, hminute, hsecond⟩,
        (congrArg String.ofList hjoin).trans String.ofList_toList, hn⟩
    · rename_i hour minute second hsplit
      rcases parseComponents_eq_ok_iff.mp h with ⟨hhour, hminute, hsecond, hn⟩
      rw [hsplit] at hjoin
      exact ⟨⟨hour, minute, some second, hhour, hminute, hsecond⟩,
        (congrArg String.ofList hjoin).trans String.ofList_toList, hn⟩
    · cases h
    · cases h
    · cases h
  · rintro ⟨w, rfl, rfl⟩
    unfold parse
    rw [w.splitAt_text]
    rcases w with ⟨hour, minute, second, hhour, hminute, hsecond⟩
    cases second <;> exact parseComponents_eq_ok_iff.mpr ⟨hhour, hminute, hsecond, rfl⟩

end Reading

section Writing

variable {text : List Char} {n : ℕ}

theorem padded_eq (n : ℕ) : (padded n).toList = (Nat.toDigits 10 n).leftpad 2 '0' := by
  have htext : (toString n).toList = Nat.toDigits 10 n := by
    rw [Nat.toString_eq_repr, Nat.repr_eq_ofList_toDigits, String.toList_ofList]
  unfold padded List.leftpad
  by_cases h : n < 10
  · rw [if_pos h, String.toList_append, htext, Nat.toDigits_of_lt_base h]
    rfl
  -- There are two digits already.
  · have hlength := (@Nat.length_toDigits_le_iff 10 n 1 (by decide) Nat.one_pos).not.mpr h
    rw [if_neg h, htext, show 2 - (Nat.toDigits 10 n).length = 0 by omega]
    rfl

theorem length_padded (n : ℕ) : (padded n).toList.length = max 2 (Nat.toDigits 10 n).length := by
  rw [padded_eq, List.length_leftpad]

theorem digits_padded (n : ℕ) : ∀ c ∈ (padded n).toList, c.isDigit = true := by
  intro c hmem
  rw [padded_eq] at hmem
  rcases List.mem_append.mp hmem with hmem | hmem
  · rw [List.eq_of_mem_replicate hmem]
    rfl
  · exact Nat.isDigit_of_mem_toDigits (by decide) (Nat.le_refl 10) hmem

theorem value_replicate_append (k : ℕ) : value (List.replicate k '0' ++ text) = value text := by
  induction k with
  | zero => rfl
  | succ k ih => exact ih

theorem value_padded (n : ℕ) : value (padded n).toList = n := by
  rw [padded_eq]
  exact (value_replicate_append _).trans (Nat.ofDigitChars_toDigits (by decide) (Nat.le_refl 10))

theorem hour_padded (h : n < 1000) : Hour (padded n).toList := by
  have hlength := (@Nat.length_toDigits_le_iff 10 n 3 (by decide) (by decide)).mpr h
  refine ⟨digits_padded n, ?_, ?_⟩ <;> rw [length_padded] <;> omega

theorem sixtieth_padded (h : n ≤ 59) : Sixtieth (padded n).toList := by
  have hlength := (@Nat.length_toDigits_le_iff 10 n 2 (by decide) (by decide)).mpr (by omega)
  refine ⟨digits_padded n, ?_, ?_⟩
  · rw [length_padded]
    omega
  · rw [value_padded]
    exact h

theorem render_eq (n : ℕ) : render n =
    joined [(padded (n / 3600)).toList, (padded (n % 3600 / 60)).toList,
      (padded (n % 60)).toList] := by
  unfold render joined
  rw [← String.toList_inj]
  simp [List.intercalate, List.intersperse]

/-- Reading what was rendered. -/
theorem parse_render (h : n < 3600000) : parse (render n) = .ok n := by
  refine parse_eq_ok_iff.mpr ⟨⟨(padded (n / 3600)).toList, (padded (n % 3600 / 60)).toList,
    some (padded (n % 60)).toList, hour_padded (by omega), sixtieth_padded (by omega),
    fun text hmem => ?_⟩, (render_eq n).symm, ?_⟩
  · cases hmem
    exact sixtieth_padded (by omega)
  · unfold Written.seconds
    rw [Option.map_some, Option.getD_some, value_padded, value_padded, value_padded]
    omega

/-- An hour of four digits is not read. -/
theorem parse_render_of_le (h : 3600000 ≤ n) : parse (render n) = .error .hourDigits := by
  have hsplit : splitAt ':' (render n).toList = [(padded (n / 3600)).toList,
      (padded (n % 3600 / 60)).toList, (padded (n % 60)).toList] := by
    rw [render_eq]
    refine splitAt_joined (List.cons_ne_nil _ _) fun text hmem => ?_
    rw [List.mem_cons, List.mem_cons, List.mem_singleton] at hmem
    rcases hmem with rfl | rfl | rfl <;> exact digits_padded _
  have hlength := (@Nat.length_toDigits_le_iff 10 (n / 3600) 3 (by decide) (by decide)).not.mpr
    (by omega)
  have hhour : hour? (padded (n / 3600)).toList = none := by
    unfold hour?
    rw [length_padded, decide_eq_true (by omega), Bool.or_true, if_pos rfl]
  unfold parse
  rw [hsplit]
  dsimp only
  unfold parseComponents
  rw [hhour]

theorem digitChar_of_isDigit {c : Char} (h : c.isDigit = true) :
    c.toNat - '0'.toNat < 10 ∧ Nat.digitChar (c.toNat - '0'.toNat) = c := by
  rcases Char.isDigit_iff_toNat.mp h with ⟨hlow, hhigh⟩
  change 48 ≤ c.toNat at hlow
  change c.toNat ≤ 57 at hhigh
  have hlt : c.toNat - '0'.toNat < 10 := by
    change c.toNat - 48 < 10
    omega
  refine ⟨hlt, ?_⟩
  rw [← Char.toNat_inj, Nat.toNat_digitChar_of_lt_ten hlt]
  change 48 + (c.toNat - 48) = c.toNat
  omega

theorem value_append_singleton (rest : List Char) (c : Char) :
    value (rest ++ [c]) = 10 * value rest + (c.toNat - '0'.toNat) := by
  unfold value
  rw [Nat.ofDigitChars_append, Nat.ofDigitChars_cons, Nat.ofDigitChars_nil]

theorem value_lt (text : List Char) (h : ∀ c ∈ text, c.isDigit = true) :
    value text < 10 ^ text.length := by
  induction text using List.reverseRecOn with
  | nil => exact Nat.one_pos
  | append_singleton rest c ih =>
      have hlast := (digitChar_of_isDigit (h c (by simp))).1
      have hrest := ih (fun d hmem => h d (List.mem_append_left [c] hmem))
      rw [value_append_singleton, List.length_append, List.length_singleton, Nat.pow_succ]
      omega

/-- A number has the digits that it is read from, unless there are zeros in front. -/
theorem toDigits_value (text : List Char) : (∀ c ∈ text, c.isDigit = true) →
    text ≠ [] → text.head? ≠ some '0' → Nat.toDigits 10 (value text) = text := by
  induction text using List.reverseRecOn with
  | nil => exact fun _ hne => absurd rfl hne
  | append_singleton rest c ih =>
      intro hdigits _ hfirst
      rcases digitChar_of_isDigit (hdigits c (by simp)) with ⟨hlt, hchar⟩
      have hlast : Nat.toDigits 10 (c.toNat - '0'.toNat) = [c] := by
        rw [Nat.toDigits_of_lt_base hlt, hchar]
      by_cases hrest : rest = []
      · subst hrest
        rw [value_append_singleton, show value [] = 0 from rfl, Nat.mul_zero, Nat.zero_add, hlast]
        rfl
      -- The last digit is what is left of a division by ten, and the others are the quotient.
      · rw [List.head?_append_of_ne_nil rest hrest] at hfirst
        have hread := ih (fun d hmem => hdigits d (List.mem_append_left [c] hmem)) hrest hfirst
        have hpos : 0 < value rest := by
          refine Nat.pos_of_ne_zero fun hzero => hfirst ?_
          rw [← hread, hzero]
          rfl
        rw [value_append_singleton, ← Nat.toDigits_append_toDigits (by decide) hpos hlt, hread,
          hlast]

theorem value_dropWhile (text : List Char) : value (text.dropWhile (· == '0')) = value text := by
  induction text with
  | nil => rfl
  | cons c rest ih =>
      by_cases h : c = '0'
      · subst h
        exact ih
      · rw [List.dropWhile_cons_of_neg (by simpa using h)]

/-- Writing a number that was read leaves out zeros. -/
theorem padded_value (h : ∀ c ∈ text, c.isDigit = true) :
    (padded (value text)).toList = (text.dropWhile (· == '0')).leftpad 2 '0' := by
  have hdigits : ∀ c ∈ text.dropWhile (· == '0'), c.isDigit = true :=
    fun c hmem => h c ((List.dropWhile_sublist _).subset hmem)
  have hfirst := List.head?_dropWhile_not (· == '0') text
  rw [padded_eq, ← value_dropWhile]
  generalize text.dropWhile (· == '0') = kept at hdigits hfirst
  cases kept with
  -- There was nothing but zeros, and zero is written with two of them.
  | nil => rfl
  | cons c rest =>
      rw [toDigits_value (c :: rest) hdigits (List.cons_ne_nil c rest)]
      intro hc
      rw [hc] at hfirst
      exact Bool.false_ne_true hfirst.symm

theorem leftpad_dropWhile (text : List Char) :
    (text.dropWhile (· == '0')).leftpad text.length '0' = text := by
  induction text with
  | nil => rfl
  | cons c rest ih =>
      by_cases h : c = '0'
      · subst h
        have hle := List.length_dropWhile_le (· == '0') rest
        rw [List.dropWhile_cons_of_pos rfl, List.length_cons]
        unfold List.leftpad at ih ⊢
        rw [show rest.length + 1 - (rest.dropWhile (· == '0')).length =
          rest.length - (rest.dropWhile (· == '0')).length + 1 by omega, List.replicate_succ,
          List.cons_append, ih]
      · rw [List.dropWhile_cons_of_neg (by simpa using h)]
        unfold List.leftpad
        rw [Nat.sub_self]
        rfl

theorem Sixtieth.padded_value (h : Sixtieth text) : (padded (value text)).toList = text := by
  rw [Clock.padded_value h.digits, ← h.length_eq, leftpad_dropWhile]

theorem Written.second_le (w : Written) : (w.second.map value).getD 0 ≤ 59 := by
  cases h : w.second with
  | none => exact Nat.zero_le 59
  | some text => exact (w.isSecond text h).value_le

theorem Written.seconds_lt (w : Written) : w.seconds < 3600000 := by
  have hhour : value w.hour < 1000 :=
    (value_lt w.hour w.isHour.digits).trans_le
      (Nat.pow_le_pow_right (by decide) w.isHour.length_le : _ ≤ 10 ^ 3)
  have hminute := w.isMinute.value_le
  have hsecond := w.second_le
  unfold Written.seconds
  omega

/-- Writing what was read. -/
theorem render_seconds (w : Written) : render w.seconds = w.tidied := by
  have hminute := w.isMinute.value_le
  have hle := w.second_le
  have hsecond : (padded ((w.second.map value).getD 0)).toList = w.second.getD ['0', '0'] := by
    cases h : w.second with
    | none => rfl
    | some text => exact (w.isSecond text h).padded_value
  rw [render_eq]
  unfold Written.seconds Written.tidied
  generalize (w.second.map value).getD 0 = s at hle hsecond
  rw [show (value w.hour * 3600 + value w.minute * 60 + s) / 3600 = value w.hour by omega,
    show (value w.hour * 3600 + value w.minute * 60 + s) % 3600 / 60 = value w.minute by omega,
    show (value w.hour * 3600 + value w.minute * 60 + s) % 60 = s by omega,
    padded_value w.isHour.digits, w.isMinute.padded_value, hsecond]

end Writing

section Formatting

open FloatingPoint

variable {x : Float} {n : ℕ}

/-- Whole seconds are not rounded, and a negative zero is midnight. -/
theorem format_eq_render (hx : (Binary64.ofFloat x).value? = some (n : ℚ)) (hn : n < 2 ^ 64) :
    format x = render n := by
  rcases Binary64.exists_finite_of_value? hx with ⟨negative, m, e, hread, hvalue, hsign⟩
  have hlargest : n ≤ largestSeconds := Nat.le_pred_of_lt hn
  have hpos : ¬ (negative = true ∧ m ≠ 0) := fun ⟨hnegative, hm⟩ => hm (hsign hnegative)
  unfold format
  rw [hread]
  dsimp only
  rw [if_neg hpos, Binary64.roundedMagnitude_eq hvalue, Nat.min_eq_left hlargest]

/-- Reading and writing times. A text is read if and only if it is a written time. What it says
    is read exactly, and writing that gives the text again, tidied. Whole seconds are read as
    what was written, unless the hour has more than three digits. -/
theorem parse_format :
    (∀ text x, (parse text).map Float.ofNat = .ok x ↔
      ∃ w : Written, w.text = text ∧ Float.ofNat w.seconds = x) ∧
    (∀ w : Written, (Binary64.ofFloat (Float.ofNat w.seconds)).value? = some (w.seconds : ℚ) ∧
      format (Float.ofNat w.seconds) = w.tidied) ∧
    ∀ (x : Float) (n : ℕ), (Binary64.ofFloat x).value? = some (n : ℚ) → n < 2 ^ 64 →
      (n < 3600000 → ∃ y, (parse (format x)).map Float.ofNat = .ok y ∧
        (Binary64.ofFloat y).value? = some (n : ℚ)) ∧
      (3600000 ≤ n → ∃ e, parse (format x) = .error e) := by
  refine ⟨fun text x => ?_, fun w => ?_, fun x n hx hn => ⟨fun h => ?_, fun h => ?_⟩⟩
  · constructor
    · intro h
      cases hread : parse text with
      | error e =>
          rw [hread] at h
          cases h
      | ok n =>
          rcases parse_eq_ok_iff.mp hread with ⟨w, htext, rfl⟩
          rw [hread] at h
          exact ⟨w, htext, Except.ok.inj h⟩
    · rintro ⟨w, htext, rfl⟩
      rw [parse_eq_ok_iff.mpr ⟨w, htext, rfl⟩]
      rfl
  · have hlt := w.seconds_lt
    have hexact : (Binary64.ofFloat (Float.ofNat w.seconds)).value? = some (w.seconds : ℚ) :=
      value?_ofNat (by omega)
    refine ⟨hexact, ?_⟩
    rw [format_eq_render hexact (by omega), render_seconds]
  · rw [format_eq_render hx hn, parse_render h]
    exact ⟨Float.ofNat n, rfl, value?_ofNat (by omega)⟩
  · rw [format_eq_render hx hn]
    exact ⟨.hourDigits, parse_render_of_le h⟩

/-- The early morning of the next day, with too many zeros and without seconds. -/
def Written.smallHours : Written where
  hour := ['0', '2', '5']
  minute := ['1', '0']
  second := none
  isHour := ⟨List.all_eq_true.mp rfl, by decide, by decide⟩
  isMinute := ⟨List.all_eq_true.mp rfl, by decide, by decide⟩
  isSecond := fun _ hmem => by cases hmem

/-- A time is read and written, and a thousand hours are not read again. -/
theorem parse_format_smallHours :
    (parse "025:10").map Float.ofNat = .ok (Float.ofNat 90600) ∧
    format (Float.ofNat 90600) = "25:10:00" ∧
    (∃ y, (parse (format (Float.ofNat 90600))).map Float.ofNat = .ok y ∧
      (Binary64.ofFloat y).value? = some ((90600 : ℕ) : ℚ)) ∧
    ∃ e, parse (format (Float.ofNat 3600000)) = .error e := by
  have hseconds : Written.smallHours.seconds = 90600 := by decide +kernel
  have htidied : Written.smallHours.tidied = "25:10:00" := by decide +kernel
  have hwritten := parse_format.2.1 Written.smallHours
  rw [hseconds, htidied] at hwritten
  have hlarge : (Binary64.ofFloat (Float.ofNat 3600000)).value? = some ((3600000 : ℕ) : ℚ) :=
    value?_ofNat (by decide)
  exact ⟨(parse_format.1 _ _).mpr
      ⟨Written.smallHours, by decide +kernel, congrArg Float.ofNat hseconds⟩,
    hwritten.2, (parse_format.2.2 _ _ hwritten.1 (by decide)).1 (by decide),
    (parse_format.2.2 _ _ hlarge (by decide)).2 (by decide)⟩

end Formatting

end Clock

end Journey
